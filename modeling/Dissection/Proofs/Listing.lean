import Mathlib.Order.Bounds.Defs
import Dissection.Proofs.Arrangement
import Dissection.Proofs.Scanning

/-!
Lists of entries that are laid end to end. A listing says which entries are well formed where they
lie and where a list of them is complete. From an offset on there is one list that cannot be
continued (`Fills.unique`), and a scan that reads the entries of a listing finds it, with one more
item at most, which overruns the bytes (`Reads.scans_fills`). Of what such a scan finds, a table
takes the entries that are recognized, in order, as long as it has room (`Asks.accepted_scan`).
-/

namespace Dissection

/-- An entry of a kind as it lies in the captured bytes. -/
structure Laid where
  kind : Nat
  offset : Nat
  length : Nat
  deriving DecidableEq, Repr

def Laid.stop (entry : Laid) : Nat :=
  entry.offset + entry.length

/-- The rules of lists of entries: which entries are well formed where they lie, no two of them
at one offset, and behind which of them nothing belongs to the list any more. -/
structure Listing where
  WellFormed : Laid → Prop
  Complete : List Laid → Prop
  unique : ∀ {entry other : Laid}, WellFormed entry → WellFormed other →
    entry.offset = other.offset → entry = other

namespace Listing

/-- Entries laid end to end from an offset on, each of them well formed and none of them behind
a list that is complete. -/
inductive Lays (listing : Listing) (start : Nat) : List Laid → Prop
  | nil : listing.Lays start []
  | concat {entries : List Laid} {entry : Laid} (hentries : listing.Lays start entries)
      (hopen : ¬listing.Complete entries)
      (hoffset : entry.offset = start + total Laid.length entries)
      (hentry : listing.WellFormed entry) : listing.Lays start (entries ++ [entry])

def Ends (listing : Listing) (start : Nat) (entries : List Laid) : Prop :=
  ∀ entry, ¬listing.Lays start (entries ++ [entry])

/-- The entries from an offset on, as many of them as there are. -/
structure Fills (listing : Listing) (start : Nat) (entries : List Laid) : Prop where
  lays : listing.Lays start entries
  ends : listing.Ends start entries

section Lays

variable {listing : Listing} {start : Nat} {entries others : List Laid} {entry : Laid}

theorem lays_concat_iff :
    listing.Lays start (entries ++ [entry]) ↔
      listing.Lays start entries ∧ ¬listing.Complete entries ∧
        entry.offset = start + total Laid.length entries ∧ listing.WellFormed entry := by
  constructor
  · intro h
    generalize hall : entries ++ [entry] = all at h
    cases h with
    | nil => simp at hall
    | concat hentries hopen hoffset hentry =>
        obtain ⟨rfl, hlast⟩ := List.append_inj' hall rfl
        cases hlast
        exact ⟨hentries, hopen, hoffset, hentry⟩
  · rintro ⟨hentries, hopen, hoffset, hentry⟩
    exact .concat hentries hopen hoffset hentry

theorem ends_of_complete (h : listing.Complete entries) : listing.Ends start entries :=
  fun _ hentry => (lays_concat_iff.mp hentry).2.1 h

theorem ends_of_forall
    (h : ∀ entry, entry.offset = start + total Laid.length entries → ¬listing.WellFormed entry) :
    listing.Ends start entries := by
  intro entry hentry
  obtain ⟨_, _, hoffset, hwell⟩ := lays_concat_iff.mp hentry
  exact h entry hoffset hwell

theorem Lays.wellFormed (h : listing.Lays start entries) :
    ∀ entry ∈ entries, listing.WellFormed entry := by
  induction h with
  | nil => exact List.forall_mem_nil _
  | concat _ _ _ hentry ih =>
      rw [List.forall_mem_append]
      exact ⟨ih, List.forall_mem_singleton.mpr hentry⟩

theorem Lays.of_front (h : listing.Lays start entries) {front : List Laid}
    (hfront : front <+: entries) : listing.Lays start front := by
  induction h with
  | nil =>
      rw [List.prefix_nil.mp hfront]
      exact .nil
  | concat hentries hopen hoffset hentry ih =>
      rcases List.prefix_concat_iff.mp hfront with rfl | hfront
      · exact .concat hentries hopen hoffset hentry
      · exact ih hfront

theorem Lays.front_or_front (h : listing.Lays start entries) (hother : listing.Lays start others) :
    entries <+: others ∨ others <+: entries := by
  induction h with
  | nil => exact .inl List.nil_prefix
  | @concat entries entry _ _ hoffset hentry ih =>
      rcases ih with ⟨behind, rfl⟩ | hfront
      · cases behind with
        | nil =>
            rw [List.append_nil]
            exact .inr (List.prefix_append _ _)
        | cons next behind =>
            rw [List.append_cons] at hother
            obtain ⟨_, _, hnextOffset, hnext⟩ :=
              lays_concat_iff.mp (hother.of_front (List.prefix_append _ _))
            -- No two entries are well formed at one offset, so both lists go on with the same.
            cases listing.unique hentry hnext (hoffset.trans hnextOffset.symm)
            rw [List.append_cons entries entry behind]
            exact .inl (List.prefix_append _ _)
      · exact .inr (hfront.trans (List.prefix_append _ _))

theorem Fills.front_of_lays (h : listing.Fills start entries)
    (hother : listing.Lays start others) : others <+: entries := by
  rcases h.lays.front_or_front hother with ⟨behind, rfl⟩ | hfront
  · cases behind with
    | nil => rw [List.append_nil]
    | cons next behind =>
        rw [List.append_cons] at hother
        exact absurd (hother.of_front (List.prefix_append _ _)) (h.ends next)
  · exact hfront

theorem Fills.unique (h : listing.Fills start entries) (hother : listing.Fills start others) :
    others = entries := by
  have hfront := h.front_of_lays hother.lays
  exact hfront.eq_of_length_le (hother.front_of_lays h.lays).length_le

end Lays

/-- The listing of no more than `count` of the entries. -/
def upTo (listing : Listing) (count : Nat) : Listing :=
  { listing with Complete := fun entries => listing.Complete entries ∨ entries.length = count }

/-- As many entries from an offset on as there can be up to a count. -/
structure Longest (listing : Listing) (start most : Nat) (entries : List Laid) : Prop where
  lays : listing.Lays start entries
  greatest : IsGreatest
    {count | count ≤ most ∧ ∃ others, listing.Lays start others ∧ others.length = count}
    entries.length

section UpTo

variable {listing : Listing} {count start : Nat} {entries : List Laid}

theorem lays_upTo_iff :
    (listing.upTo count).Lays start entries ↔
      listing.Lays start entries ∧ entries.length ≤ count := by
  constructor
  · intro h
    induction h with
    | nil => exact ⟨.nil, Nat.zero_le _⟩
    | concat _ hopen hoffset hentry ih =>
        obtain ⟨hcomplete, hcount⟩ := not_or.mp hopen
        refine ⟨.concat ih.1 hcomplete hoffset hentry, ?_⟩
        rw [List.length_append, List.length_singleton]
        have hle := ih.2
        omega
  · rintro ⟨h, hle⟩
    induction h with
    | nil => exact .nil
    | concat _ hopen hoffset hentry ih =>
        rw [List.length_append, List.length_singleton] at hle
        refine .concat (ih (by omega)) (not_or.mpr ⟨hopen, ?_⟩) hoffset hentry
        omega

theorem Fills.longest (h : (listing.upTo count).Fills start entries) (room : Nat) :
    listing.Longest start (min count room) (entries.take room) := by
  obtain ⟨hlays, hcount⟩ := lays_upTo_iff.mp h.lays
  have htaken := hlays.of_front (List.take_prefix room entries)
  refine ⟨htaken, ⟨?_, _, htaken, rfl⟩, ?_⟩
  · rw [List.length_take]
    omega
  · rintro _ ⟨hsize, others, hothers, rfl⟩
    have hle := (h.front_of_lays (lays_upTo_iff.mpr ⟨hothers, by omega⟩)).length_le
    rw [List.length_take]
    omega

end UpTo

section Reading

variable {σ α ω : Type}

/-- What a move behind entries says: an item that ends within the bytes stands for the next
entry, and where there is none, or one that overruns the bytes, the list ends. -/
def Tells (listing : Listing) (view : Bytes) (start : Nat) (item : Laid → α) (size : α → Nat)
    (stands : σ → List Laid → Prop) (entries : List Laid) : Move σ α ω → Prop
  | .stop _ => listing.Ends start entries
  | .take found length next =>
      size found = length ∧
        if start + total Laid.length entries + length ≤ view.length then
          ∃ entry, found = item entry ∧ entry.length = length ∧
            listing.Lays start (entries ++ [entry]) ∧ stands next (entries ++ [entry])
        else listing.Ends start entries

/-- The step of a scan reads the entries of a listing, from states that stand for the entries read
before. -/
def Reads (listing : Listing) (view : Bytes) (start : Nat) (step : σ → Bytes → Move σ α ω)
    (item : Laid → α) (size : α → Nat) (stands : σ → List Laid → Prop) : Prop :=
  ∀ state entries, listing.Lays start entries → stands state entries →
    listing.Tells view start item size stands entries
      (step state (view.drop (start + total Laid.length entries)))

variable {listing : Listing} {view : Bytes} {start : Nat} {step : σ → Bytes → Move σ α ω}
  {item : Laid → α} {size : α → Nat} {stands : σ → List Laid → Prop} {cut : ω}

theorem Reads.scans_fills (h : listing.Reads view start step item size stands)
    (hstep : Advances step) {state : σ} {bytes : Bytes} {found : Scanned α ω}
    (hscans : Scans step cut state bytes found) {before : List Laid}
    (hbytes : bytes = view.drop (start + total Laid.length before))
    (hbefore : listing.Lays start before) (hstands : stands state before) :
    ∃ behind, listing.Fills start (before ++ behind) ∧
      (found.items = behind.map item ∨ ∃ extra, found.items = behind.map item ++ [extra] ∧
        view.length < start + total Laid.length (before ++ behind) + size extra) := by
  -- Every item that is taken moves its entry from those behind to those before.
  induction hscans generalizing before with
  | stop hmove =>
      have htells := h _ before hbefore hstands
      rw [← hbytes, hmove] at htells
      refine ⟨[], ?_, .inl rfl⟩
      rw [List.append_nil]
      exact ⟨hbefore, htells⟩
  | @last state next bytes found length hmove hsize =>
      have htells := h state before hbefore hstands
      rw [← hbytes, hmove] at htells
      obtain ⟨hlength, htells⟩ := htells
      rw [hbytes, List.length_drop] at hsize
      rw [if_neg (by omega)] at htells
      refine ⟨[], ?_, .inr ⟨found, rfl, ?_⟩⟩
      · rw [List.append_nil]
        exact ⟨hbefore, htells⟩
      · rw [List.append_nil, hlength]
        omega
  | @take state next bytes found length rest hmove hsize _ ih =>
      have hadvance := hstep state bytes
      rw [hmove, Move.advances_take] at hadvance
      have htells := h state before hbefore hstands
      rw [← hbytes, hmove] at htells
      obtain ⟨_, htells⟩ := htells
      rw [hbytes, List.length_drop] at hsize
      rw [if_pos (by omega)] at htells
      obtain ⟨entry, rfl, hentry, hlays, hnext⟩ := htells
      have hdrop : bytes.drop length =
          view.drop (start + total Laid.length (before ++ [entry])) := by
        rw [hbytes, List.drop_drop, total_append, total_cons, total_nil, hentry, Nat.add_zero,
          Nat.add_assoc]
      obtain ⟨behind, hfills, hitems⟩ := ih hdrop hlays hnext
      rw [List.append_assoc, List.singleton_append] at hfills hitems
      refine ⟨entry :: behind, hfills, ?_⟩
      rcases hitems with hitems | ⟨extra, hitems, hover⟩
      · exact .inl (by rw [Scanned.cons_items, hitems, List.map_cons])
      · exact .inr ⟨extra, by rw [Scanned.cons_items, hitems, List.map_cons, List.cons_append],
          hover⟩

end Reading

/-- The listing of entries that begin with a byte for their kind and end by a limit, with the
length that is told by the kind and by what is read behind it. -/
def ofLengths (view : Bytes) (limit : Nat) (length? : Nat → Nat → Option Nat)
    (Complete : List Laid → Prop) : Listing where
  WellFormed entry := Bytes.u8? view entry.offset = some entry.kind ∧
    length? entry.kind entry.offset = some entry.length ∧ entry.stop ≤ limit
  Complete
  unique := by
    rintro ⟨kind, offset, length⟩ ⟨_, _, _⟩ ⟨hkind, hlength, _⟩ ⟨hother, hotherLength, _⟩ rfl
    cases hkind.symm.trans hother
    cases hlength.symm.trans hotherLength
    rfl

section OfLengths

variable {view : Bytes} {limit start offset : Nat} {length? : Nat → Nat → Option Nat}
  {Complete : List Laid → Prop} {entries : List Laid}

theorem ends_ofLengths (hoffset : offset = start + total Laid.length entries)
    (h : ∀ kind length, Bytes.u8? view offset = some kind → length? kind offset = some length →
      limit < offset + length) : (ofLengths view limit length? Complete).Ends start entries := by
  apply ends_of_forall
  rintro entry hentry ⟨hkind, hlength, hstop⟩
  rw [← hoffset] at hentry
  rw [hentry] at hkind hlength
  rw [Laid.stop, hentry] at hstop
  exact absurd hstop (Nat.not_le_of_lt (h _ _ hkind hlength))

theorem ofLengths_upTo (count : Nat) : (ofLengths view limit length? Complete).upTo count =
    ofLengths view limit length? fun entries => Complete entries ∨ entries.length = count :=
  rfl

theorem tells_take {σ α ω : Type} {item : Laid → α} {size : α → Nat} {stands : σ → List Laid → Prop}
    (hlimit : limit ≤ view.length)
    (hlays : (ofLengths view limit length? Complete).Lays start entries)
    (hopen : ¬Complete entries) (hoffset : offset = start + total Laid.length entries)
    {kind length : Nat} (hkind : Bytes.u8? view offset = some kind)
    (hlength : length? kind offset = some length)
    (hfits : offset + length ≤ view.length → offset + length ≤ limit)
    (hsize : size (item ⟨kind, offset, length⟩) = length) {next : σ}
    (hnext : stands next (entries ++ [⟨kind, offset, length⟩])) :
    (ofLengths view limit length? Complete).Tells view start item size stands entries
      (.take (item ⟨kind, offset, length⟩) length next : Move σ α ω) := by
  refine ⟨hsize, ?_⟩
  rw [← hoffset]
  split
  · rename_i hwithin
    exact ⟨_, rfl, rfl, .concat hlays hopen hoffset ⟨hkind, hlength, hfits hwithin⟩, hnext⟩
  · apply ends_ofLengths hoffset
    intro other measured hother hmeasured
    cases hkind.symm.trans hother
    cases hlength.symm.trans hmeasured
    omega

end OfLengths

end Listing

section Taking

variable {α : Type}

def Laid.place? (recognize : Nat → Option ProtocolId) (entry : Laid) : Option Placement :=
  (recognize entry.kind).map (⟨·, entry.offset, entry.length⟩)

/-- How items laid end to end ask for places: each where it lies, for its whole length, if the
kind of the entry that it stands for is recognized. -/
structure Asks (pieces : Nat → List α → List Piece) (item : Laid → α) (size : α → Nat)
    (recognize : Nat → Option ProtocolId) : Prop where
  nil : ∀ offset, pieces offset [] = []
  concat : ∀ offset items last, pieces offset (items ++ [last]) =
    pieces offset items ++ pieces (offset + total size items) [last]
  size_item : ∀ entry, size (item entry) = entry.length
  map_item : ∀ entry,
    (pieces entry.offset [item entry]).map Piece.place = (entry.place? recognize).toList
  stop_eq : ∀ offset last, ∀ piece ∈ (pieces offset [last]).head?,
    piece.place.stop = offset + size last

theorem total_map {β : Type} (size : β → Nat) (item : α → β) (items : List α) :
    total size (items.map item) = total (size ∘ item) items := by
  induction items with
  | nil => rfl
  | cons _ _ ih => rw [List.map_cons, total_cons, total_cons, ih, Function.comp_apply]

theorem accepted_of_fit {room limit : Nat} {pieces behind : List Piece}
    (hfit : ∀ piece ∈ pieces, piece.place.stop ≤ limit)
    (hbehind : ∀ piece ∈ behind.head?, limit < piece.place.stop) :
    accepted room limit (pieces ++ behind) = pieces.take room := by
  have hnone : behind.takeWhile (fun piece => decide (piece.place.stop ≤ limit)) = [] := by
    cases behind with
    | nil => rfl
    | cons piece _ => exact List.takeWhile_cons_of_neg (by simpa using hbehind piece rfl)
  rw [accepted, List.takeWhile_append_of_pos (by simpa using hfit), hnone, List.append_nil]

section Asks

variable {pieces : Nat → List α → List Piece} {item : Laid → α} {size : α → Nat}
  {recognize : Nat → Option ProtocolId} {listing : Listing} {start : Nat} {entries : List Laid}

theorem Asks.total_eq (h : Asks pieces item size recognize) (entries : List Laid) :
    total size (entries.map item) = total Laid.length entries := by
  rw [total_map]
  congr 1
  funext entry
  exact h.size_item entry

theorem Asks.map_pieces (h : Asks pieces item size recognize)
    (hlays : listing.Lays start entries) :
    (pieces start (entries.map item)).map Piece.place =
      entries.filterMap (Laid.place? recognize) := by
  induction hlays with
  | nil => rw [List.map_nil, h.nil, List.map_nil, List.filterMap_nil]
  | @concat entries entry _ _ hoffset _ ih =>
      rw [List.map_append, List.map_singleton, h.concat, h.total_eq, ← hoffset, List.map_append, ih,
        h.map_item, List.filterMap_append]
      cases hplace : entry.place? recognize <;> simp [hplace]

theorem Asks.accepted_scan {σ ω : Type} {view : Bytes} {step : σ → Bytes → Move σ α ω}
    {stands : σ → List Laid → Prop} (h : Asks pieces item size recognize)
    (hreads : listing.Reads view start step item size stands) (hstep : Advances step)
    (hwithin : ∀ entry, listing.WellFormed entry → entry.stop ≤ view.length) (cut : ω) {state : σ}
    (hstands : stands state []) (room : Nat) :
    ∃ entries, listing.Fills start entries ∧
      (accepted room view.length
        (pieces start (scan step cut state (view.drop start)).items)).map Piece.place =
          (entries.filterMap (Laid.place? recognize)).take room := by
  have hscans : Scans step cut state (view.drop start) _ := scans_scan hstep _ _
  obtain ⟨entries, hfills, hitems⟩ := hreads.scans_fills hstep hscans rfl .nil hstands
  rw [List.nil_append] at hfills hitems
  have hplaces := h.map_pieces hfills.lays
  have hfit : ∀ piece ∈ pieces start (entries.map item), piece.place.stop ≤ view.length := by
    intro piece hpiece
    have hmem : piece.place ∈ (pieces start (entries.map item)).map Piece.place :=
      List.mem_map_of_mem hpiece
    rw [hplaces, List.mem_filterMap] at hmem
    obtain ⟨entry, hentry, hplace⟩ := hmem
    obtain ⟨id, _, hid⟩ := Option.map_eq_some_iff.mp hplace
    rw [← hid]
    exact hwithin entry (hfills.lays.wellFormed entry hentry)
  refine ⟨entries, hfills, ?_⟩
  rcases hitems with hitems | ⟨extra, hitems, hover⟩
  · have htaken : accepted room view.length (pieces start (entries.map item) ++ []) =
        (pieces start (entries.map item)).take room := accepted_of_fit hfit nofun
    rw [List.append_nil] at htaken
    rw [hitems, htaken, List.map_take, hplaces]
  · have hbehind : ∀ piece ∈ (pieces (start + total Laid.length entries) [extra]).head?,
        view.length < piece.place.stop := by
      intro piece hpiece
      rwa [h.stop_eq _ _ piece hpiece]
    rw [hitems, h.concat, h.total_eq, accepted_of_fit hfit hbehind, List.map_take, hplaces]

end Asks

end Taking

end Dissection
