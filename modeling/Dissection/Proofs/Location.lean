import Dissection.Header.Bound
import Dissection.Proofs.Dispatch

namespace Dissection

/-- A layer of a chain that begins at an offset, with what is recorded of its parts and of
the layers behind it. -/
structure Site (offset : Nat) where
  init : List Layer
  layer : Layer
  rest : List Layer
  parts : List Piece
  behind : List Piece
  parts_front : parts <+: layer.parts (offset + total Layer.span init)
  behind_front : behind <+: layerPieces (offset + total Layer.span init + layer.span) rest
  /-- Nothing is recorded behind a layer that is not recorded whole. -/
  whole : behind = [] ∨ parts = layer.parts (offset + total Layer.span init)

namespace Site

variable {offset : Nat}

def layers (site : Site offset) : List Layer :=
  site.init ++ site.layer :: site.rest

def start (site : Site offset) : Nat :=
  offset + total Layer.span site.init

/-- What is recorded from the header of the layer on. -/
def pieces (site : Site offset) : List Piece :=
  ⟨.header, site.layer.kind.id, site.start, site.layer.length⟩ :: (site.parts ++ site.behind)

/-- The place of the header of the layer. -/
def place (site : Site offset) : Placement :=
  ⟨site.layer.kind.id, site.start, site.layer.length + trailed site.parts⟩

def owned (site : Site offset) : List Placement :=
  site.parts.map Piece.place

/-- The places behind that of the header. -/
def after (site : Site offset) : List Placement :=
  site.owned ++ widened site.behind

def behindLayer (layer : Layer) (site : Site (offset + layer.span)) : Site offset where
  init := layer :: site.init
  layer := site.layer
  rest := site.rest
  parts := site.parts
  behind := site.behind
  parts_front := by
    rw [total_cons, ← Nat.add_assoc]
    exact site.parts_front
  behind_front := by
    rw [total_cons, ← Nat.add_assoc offset]
    exact site.behind_front
  whole := by
    rw [total_cons, ← Nat.add_assoc]
    exact site.whole

theorem start_behindLayer (layer : Layer) (site : Site (offset + layer.span)) :
    (site.behindLayer layer).start = site.start := by
  rw [start, behindLayer, total_cons, ← Nat.add_assoc]
  rfl

section Owned

variable {site : Site offset}

theorem isCore_owned (h : site.layer.Shaped) : ∀ place ∈ site.owned, place.isCore = false :=
  h.isCore_parts site.parts_front

theorem head_behind {next : Placement} {others : List Placement}
    (h : widened site.behind = next :: others) :
    next.isCore = true ∧ next.offset = site.place.stop := by
  obtain ⟨layer, behind, _, hid, hoffset⟩ := head_widened site.behind_front h
  refine ⟨?_, ?_⟩
  · rw [Placement.isCore, hid, HeaderKind.isCore_id]
  · have hparts : site.parts = site.layer.parts site.start := by
      refine site.whole.resolve_left ?_
      intro hnil
      rw [hnil] at h
      cases h
    rw [hoffset, Placement.stop, place, hparts, Layer.length_add_trailed]
    rfl

theorem takeWhile_after (h : site.layer.Shaped) :
    site.after.takeWhile (fun place => !place.isCore) = site.owned := by
  have hplain : ∀ place ∈ site.owned, (!place.isCore) = true := by
    simpa using isCore_owned h
  rw [after, List.takeWhile_append_of_pos hplain]
  cases hbehind : widened site.behind with
  | nil => exact List.append_nil _
  | cons next others =>
      have hcore := (head_behind hbehind).1
      rw [List.takeWhile_cons_of_neg (by simp [hcore]), List.append_nil]

end Owned

end Site

theorem exists_site {layers : List Layer} {front : List Piece} {offset : Nat}
    (hshaped : ∀ layer ∈ layers, layer.Shaped) (hfront : front <+: layerPieces offset layers)
    {before after : List Placement} {place : Placement}
    (hplaces : widened front = before ++ place :: after) (hcore : place.isCore = true) :
    ∃ site : Site offset, site.layers = layers ∧ site.place = place ∧ site.after = after ∧
      site.pieces <:+ front := by
  -- Layer by layer: either the header is that of the first layer, or its place is among those
  -- behind the parts of that layer, as none of these is a header.
  induction layers generalizing offset front before with
  | nil =>
      rw [List.prefix_nil.mp hfront] at hplaces
      cases before <;> cases hplaces
  | cons layer rest ih =>
      rw [List.forall_mem_cons] at hshaped
      rcases front_layerPieces_cases hfront with rfl | ⟨parts, behind, rfl, hparts, hbehind, hwhole⟩
      · cases before <;> cases hplaces
      · rw [widened_front _ hparts hbehind] at hplaces
        cases before with
        | nil =>
            obtain ⟨rfl, rfl⟩ := List.cons.inj hplaces
            exact ⟨⟨[], layer, rest, parts, behind, hparts, hbehind, hwhole⟩, rfl, rfl, rfl,
              List.suffix_rfl⟩
        | cons first before =>
            obtain ⟨_, htail⟩ := List.cons.inj hplaces
            obtain ⟨between, _, hsplit⟩ :=
              split_at_core (hshaped.1.isCore_parts hparts) hcore htail.symm
            obtain ⟨site, hlayers, hplace, hafter, hsuffix⟩ := ih hshaped.2 hbehind hsplit
            refine ⟨site.behindLayer layer, ?_, ?_, hafter, ?_⟩
            · rw [← hlayers]
              rfl
            · rw [← hplace, Site.place, Site.start_behindLayer]
              rfl
            · have hpieces : (site.behindLayer layer).pieces = site.pieces := by
                rw [Site.pieces, Site.start_behindLayer]
                rfl
              rw [hpieces, ← List.cons_append]
              exact hsuffix.trans (List.suffix_append _ _)

theorem Scans.finds_at {expected : Expected} {bytes : Bytes} {found : Scanned Layer Ending}
    (h : Scans chainStep .silent expected bytes found) {init rest : List Layer} {layer : Layer}
    (hitems : found.items = init ++ layer :: rest) :
    ∃ before next, Finds (bytes.drop (total Layer.span init)) before layer next ∧
      (rest = [] ∧ found.verdict = .silent ∨ Scans chainStep .silent next
        (bytes.drop (total Layer.span init + layer.span)) ⟨rest, found.verdict⟩) := by
  induction h generalizing init with
  | stop _ => cases init <;> cases hitems
  | @last expected next bytes item size hmove _ =>
      obtain ⟨rfl, hfinds⟩ := chainStep_eq_take_iff.mp hmove
      cases init with
      | nil =>
          cases hitems
          exact ⟨expected, next, hfinds, .inl ⟨rfl, rfl⟩⟩
      | cons first init => cases init <;> cases (List.cons.inj hitems).2
  | @take expected next bytes item size found hmove _ hbehind ih =>
      obtain ⟨rfl, hfinds⟩ := chainStep_eq_take_iff.mp hmove
      cases init with
      | nil =>
          cases hitems
          rw [total_nil, Nat.zero_add]
          exact ⟨expected, next, hfinds, .inr hbehind⟩
      | cons first init =>
          obtain ⟨rfl, hothers⟩ := List.cons.inj hitems
          obtain ⟨before, announced, hfound, hrest⟩ := ih hothers
          rw [List.drop_drop] at hfound
          rw [List.drop_drop, ← Nat.add_assoc] at hrest
          rw [total_cons]
          exact ⟨before, announced, hfound, hrest⟩

/-- A header recorded of the chain of some bytes is that of a layer, which is found in the
bytes from its place on, and the chain goes on behind it. -/
theorem Scans.exists_site {expected : Expected} {bytes : Bytes} {found : Scanned Layer Ending}
    (h : Scans chainStep .silent expected bytes found) {front : List Piece}
    (hfront : front <+: layerPieces 0 found.items) {before after : List Placement}
    {place : Placement} (hplaces : widened front = before ++ place :: after)
    (hcore : place.isCore = true) :
    ∃ (site : Site 0) (announced next : Expected), site.place = place ∧ site.after = after ∧
      site.pieces <:+ front ∧ Finds (bytes.drop site.start) announced site.layer next ∧
        (site.rest = [] ∧ found.verdict = .silent ∨ Scans chainStep .silent next
          (bytes.drop (site.start + site.layer.span)) ⟨site.rest, found.verdict⟩) := by
  obtain ⟨site, hlayers, hplace, hafter, hsuffix⟩ :=
    Dissection.exists_site h.shaped hfront hplaces hcore
  obtain ⟨announced, next, hfinds⟩ := h.finds_at hlayers.symm
  rw [← Nat.zero_add (total Layer.span site.init)] at hfinds
  exact ⟨site, announced, next, hplace, hafter, hsuffix, hfinds⟩

/-- Nothing but headers of the kind is expected. -/
def ReadableHeader.Expects (header : ReadableHeader) (expected : Expected) : Prop :=
  match header with
  | .ethernet => ∃ datalink, expected = .ethernet datalink
  | .ipv4 => ∃ depth, expected = .ipv4 depth
  | .ipv6 => ∃ depth, expected = .ipv6 depth
  | .tcp => ∃ depth, expected = .tcp depth
  | .udp => ∃ depth, expected = .udp depth

theorem ReadableHeader.expects_of_yields {header : ReadableHeader} {expected : Expected}
    {bytes : Bytes} (h : expected.Yields bytes header.kind) :
    header.Expects expected ∨ expected = .labelled ∨ ∃ depth, expected = .quoted depth := by
  cases expected with
  | labelled => exact .inr (.inl rfl)
  | quoted depth => exact .inr (.inr ⟨depth, rfl⟩)
  | sized => rcases h with ⟨h, _⟩ | ⟨h, _⟩ <;> cases header <;> cases h
  | nothing _ => exact h.elim
  | _ => cases header <;> first | exact .inl ⟨_, rfl⟩ | cases h

theorem Finds.readable {expected next : Expected} {bytes : Bytes} {layer : Layer}
    (h : Finds bytes expected layer next) (header : ReadableHeader)
    (hkind : layer.kind = header.kind) :
    ∃ sole, header.Expects sole ∧ Finds bytes sole layer next := by
  rcases ReadableHeader.expects_of_yields (hkind ▸ h.yields) with hexpects | rfl | ⟨depth, rfl⟩
  · exact ⟨expected, hexpects, h⟩
  · cases h with
    | labelledIpv4 _ _ hfinds | labelledIpv6 _ _ hfinds =>
        have hexpects := ReadableHeader.expects_of_yields (hkind ▸ hfinds.yields)
        exact ⟨_, hexpects.resolve_right (by simp), hfinds⟩
  · cases h with
    | quotedIpv4 _ _ hfinds | quotedIpv6 _ _ hfinds =>
        have hexpects := ReadableHeader.expects_of_yields (hkind ▸ hfinds.yields)
        exact ⟨_, hexpects.resolve_right (by simp), hfinds⟩

end Dissection
