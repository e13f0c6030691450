import Dissection.Proofs.Dispatch
import Dissection.Proofs.Nesting
import Dissection.Proofs.Tally

namespace Dissection

namespace HeaderKind

/-- Whether the header belongs to the link layer. -/
def isLink : HeaderKind → Bool
  | .ethernet | .llc | .snap | .vlan | .mpls | .arp | .ipx | .stp => true
  | _ => false

/-- Whether the header belongs to the transport layer. -/
def isTransport (kind : HeaderKind) : Bool :=
  kind.transport?.isSome

end HeaderKind

/-- The headers behind the first IP header and before the second. -/
def outermost (kinds : List HeaderKind) : List HeaderKind :=
  (kinds.dropWhile fun kind => !kind.isIp).tail.takeWhile fun kind => !kind.isIp

/-- The order of the headers in a chain behind `count` IP headers: those of the link layer
come first, and behind a transport header there is none but an IP header. The depth of
each is the count of the IP headers that it is nested in. -/
inductive Ordered : Nat → List Outline → Prop
  | nil {count : Nat} : Ordered count []
  | link {kind : HeaderKind} {rest : List Outline} (hkind : kind.isLink = true)
      (hrest : Ordered 0 rest) : Ordered 0 ((kind, 0) :: rest)
  | network {kind : HeaderKind} {count : Nat} {rest : List Outline}
      (hkind : kind.isIp = true) (hrest : Ordered (count + 1) rest) :
      Ordered count ((kind, count) :: rest)
  | transport {kind : HeaderKind} {depth : Nat} {rest : List Outline}
      (hkind : kind.isTransport = true) (hnext : ∀ next ∈ rest.head?, next.1.isIp = true)
      (hrest : Ordered (depth + 1) rest) : Ordered (depth + 1) ((kind, depth) :: rest)

theorem Ordered.take {count : Nat} {outlines : List Outline} (h : Ordered count outlines)
    (few : Nat) : Ordered count (outlines.take few) := by
  induction h generalizing few with
  | nil =>
      rw [List.take_nil]
      exact .nil
  | link hkind _ ih =>
      cases few with
      | zero => exact .nil
      | succ few => exact .link hkind (ih few)
  | network hkind _ ih =>
      cases few with
      | zero => exact .nil
      | succ few => exact .network hkind (ih few)
  | transport hkind hnext _ ih =>
      cases few with
      | zero => exact .nil
      | succ few =>
          refine .transport hkind ?_ (ih few)
          cases few with
          | zero => exact fun next hnext => nomatch hnext
          | succ few =>
              rw [List.head?_take, if_neg (Nat.succ_ne_zero few)]
              exact hnext

section Chains

variable {expected next : Expected} {rest : Bytes} {layer : Layer}

/-- Behind a transport header no header is expected but an IP header. -/
def Expected.Inner (expected : Expected) : Prop :=
  ∀ rest kind, expected.Yields rest kind → kind.isIp = true

namespace Expected

theorem inner_nothing (ending : Ending) : (nothing ending).Inner :=
  fun _ _ h => h.elim

theorem inner_ofGrePayload (depth etherType : Nat) : (ofGrePayload depth etherType).Inner := by
  intro rest kind h
  rcases grePayload_of_yields h with ⟨rfl, _⟩ | ⟨rfl, _⟩ <;> rfl

theorem inner_nested_quoted (depth : Nat) : (nested depth .quoted).Inner := by
  intro rest kind h
  obtain ⟨_, _, ⟨rfl, _⟩ | ⟨rfl, _⟩⟩ := yields_of_nested h <;> rfl

end Expected

theorem Finds.ordered (h : Finds rest expected layer next) {count : Nat}
    (hcount : expected.Behind count) {outlines : List Outline}
    (hhead : ∀ outline ∈ outlines.head?, ∃ behind, next.Yields behind outline.1)
    (hrest : Ordered (count + layer.kind.isIp.toNat) outlines) :
    Ordered count (layer.outline :: outlines) := by
  have hinner (hnext : next.Inner) : ∀ outline ∈ outlines.head?, outline.1.isIp = true := by
    intro outline houtline
    obtain ⟨behind, hyields⟩ := hhead outline houtline
    exact hnext behind _ hyields
  induction h with
  | ipv4 _ _ _ _ _ | ipv6Cut _ _ _ _ | ipv6 _ _ _ _ =>
      obtain ⟨rfl, _⟩ := hcount
      exact .network rfl hrest
  | labelledIpv4 _ _ _ ih | labelledIpv6 _ _ _ ih =>
      cases hcount
      exact ih ⟨rfl, by decide⟩ hhead hrest hinner
  | quotedIpv4 _ _ _ ih | quotedIpv6 _ _ _ ih => exact ih hcount hhead hrest hinner
  | tcp _ _ | udpCut _ | udp _ _ | sctp | icmp4 _ _ | icmp6Report _ | icmp6 _ _ =>
      obtain ⟨rfl, _⟩ := hcount
      exact .transport rfl (hinner (Expected.inner_nothing _)) hrest
  | gre _ _ _ =>
      obtain ⟨rfl, _⟩ := hcount
      exact .transport rfl (hinner (Expected.inner_ofGrePayload _ _)) hrest
  | icmp4Echo _ hkind =>
      have hplain : ∀ message ∈ icmp4Echoes,
          message.2.isTransport = true ∧ message.2.isIp = false := by decide
      obtain ⟨rfl, _⟩ := hcount
      rw [Layer.plain, (hplain _ hkind).2] at hrest
      exact .transport (hplain _ hkind).1 (hinner (Expected.inner_nothing _)) hrest
  | icmp6Error _ hkind =>
      have hplain : ∀ message ∈ icmp6Errors,
          message.2.isTransport = true ∧ message.2.isIp = false := by decide
      obtain ⟨rfl, _⟩ := hcount
      rw [Layer.plain, (hplain _ hkind).2] at hrest
      exact .transport (hplain _ hkind).1 (hinner (Expected.inner_nested_quoted _)) hrest
  | icmp6Echo _ hkind =>
      have hplain : ∀ message ∈ icmp6Echoes,
          message.2.isTransport = true ∧ message.2.isIp = false := by decide
      obtain ⟨rfl, _⟩ := hcount
      rw [Layer.plain, (hplain _ hkind).2] at hrest
      exact .transport (hplain _ hkind).1 (hinner (Expected.inner_nothing _)) hrest
  | icmp6Discovery _ hkind =>
      have hplain : ∀ message ∈ icmp6Discoveries,
          message.2.1.isTransport = true ∧ message.2.1.isIp = false := by decide
      obtain ⟨rfl, _⟩ := hcount
      rw [(hplain _ hkind).2] at hrest
      exact .transport (hplain _ hkind).1 (hinner (Expected.inner_nothing _)) hrest
  | _ =>
      cases hcount
      exact .link rfl hrest

theorem Scans.ordered {found : Scanned Layer Ending}
    (h : Scans chainStep .silent expected rest found) {count : Nat}
    (hcount : expected.Behind count) : Ordered count (found.items.map Layer.outline) := by
  induction h generalizing count with
  | stop _ => exact .nil
  | last hmove _ =>
      obtain ⟨rfl, hfinds⟩ := chainStep_eq_take_iff.mp hmove
      exact hfinds.ordered hcount (fun _ hhead => nomatch hhead) .nil
  | @take expected next rest layer size found hmove _ hbehind ih =>
      obtain ⟨rfl, hfinds⟩ := chainStep_eq_take_iff.mp hmove
      refine hfinds.ordered hcount ?_ (ih (hfinds.behind hcount).1)
      intro outline houtline
      cases hitems : found.items with
      | nil =>
          rw [hitems] at houtline
          cases houtline
      | cons first others =>
          rw [hitems] at houtline
          cases houtline
          exact ⟨_, hbehind.yields hitems⟩

end Chains

section Outlines

variable {count : Nat} {outlines : List Outline}

theorem HeaderKind.isLink_of_isIp {kind : HeaderKind} (h : kind.isIp = true) :
    kind.isLink = false := by
  cases kind <;> first | rfl | cases h

theorem HeaderKind.isLink_of_isTransport {kind : HeaderKind} (h : kind.isTransport = true) :
    kind.isLink = false := by
  cases kind <;> first | rfl | cases h

theorem HeaderKind.isIp_of_isTransport {kind : HeaderKind} (h : kind.isTransport = true) :
    kind.isIp = false := by
  cases kind <;> first | rfl | cases h

theorem Ordered.isLink_eq (h : Ordered count outlines) (hcount : count ≠ 0) :
    ∀ kind ∈ outlines.map Prod.fst, kind.isLink = false := by
  induction h with
  | nil => exact List.forall_mem_nil _
  | link _ _ _ => exact absurd rfl hcount
  | network hkind _ ih =>
      exact List.forall_mem_cons.mpr
        ⟨HeaderKind.isLink_of_isIp hkind, ih (Nat.succ_ne_zero _)⟩
  | transport hkind _ _ ih =>
      exact List.forall_mem_cons.mpr ⟨HeaderKind.isLink_of_isTransport hkind, ih hcount⟩

theorem Ordered.count_link (h : Ordered count outlines) (hcount : count ≠ 0)
    {kind : HeaderKind} (hkind : kind.isLink = true) :
    (outlines.map Prod.fst).count kind = 0 := by
  rw [List.count_eq_zero]
  intro hmem
  rw [h.isLink_eq hcount kind hmem] at hkind
  cases hkind

theorem Ordered.addAll_deep (h : Ordered count outlines) (hcount : 2 ≤ count) (tally : Tally) :
    tally.addAll outlines = tally := by
  induction h with
  | nil => rfl
  | link _ _ _ => cases hcount
  | @network kind count rest _ _ ih =>
      have hdepth : count ≠ 0 := by omega
      show (tally.addOutline (kind, count)).addAll rest = tally
      rw [Tally.addOutline, if_neg hdepth]
      exact ih (by omega)
  | @transport kind depth rest _ _ _ ih =>
      have hdepth : depth ≠ 0 := by omega
      show (tally.addOutline (kind, depth)).addAll rest = tally
      rw [Tally.addOutline, if_neg hdepth]
      exact ih hcount

theorem Ordered.addAll_inner (h : Ordered 1 outlines)
    (hhead : ∀ outline ∈ outlines.head?, outline.1.isIp = true) (tally : Tally) :
    tally.addAll outlines = tally ∧
      (outlines.map Prod.fst).takeWhile (fun kind => !kind.isIp) = [] := by
  cases h with
  | nil => exact ⟨rfl, rfl⟩
  | network hkind hrest =>
      refine ⟨hrest.addAll_deep (Nat.le_refl 2) tally, ?_⟩
      rw [List.map_cons, List.takeWhile_cons_of_neg (by simp [hkind])]
  | transport hkind _ _ =>
      cases (HeaderKind.isIp_of_isTransport hkind).symm.trans (hhead _ rfl)

theorem Tally.add_of_isTransport {kind : HeaderKind} (h : kind.isTransport = true) :
    ∃ type, kind.transport? = some type ∧
      ∀ tally : Tally, tally.add kind = { tally with transport := type } := by
  cases kind <;> first | exact ⟨_, rfl, fun _ => rfl⟩ | cases h

theorem Tally.add_of_isIp {kind : HeaderKind} (h : kind.isIp = true) :
    ∃ type, kind.network? = some type ∧
      ∀ tally : Tally, tally.add kind = { tally with network := type } := by
  cases kind <;> first | exact ⟨_, rfl, fun _ => rfl⟩ | cases h

theorem Ordered.addAll_behind (h : Ordered 1 outlines) (tally : Tally) :
    let found := ((outlines.map Prod.fst).takeWhile fun kind => !kind.isIp).filterMap
      HeaderKind.transport?
    tally.addAll outlines = { tally with transport := found.headD tally.transport } ∧
      found.length ≤ 1 := by
  intro found
  cases h with
  | nil => exact ⟨rfl, Nat.zero_le 1⟩
  | @network kind _ rest hkind hrest =>
      obtain ⟨hadd, hnone⟩ := (Ordered.network hkind hrest).addAll_inner
        (fun outline houtline => by cases houtline; exact hkind) tally
      have hfound : found = [] := by
        show List.filterMap _ (List.takeWhile _ (List.map Prod.fst ((kind, 1) :: rest))) = []
        rw [hnone]
        rfl
      rw [hfound]
      exact ⟨hadd, Nat.zero_le 1⟩
  | @transport kind _ rest hkind hnext hrest =>
      obtain ⟨type, htype, htally⟩ := Tally.add_of_isTransport hkind
      obtain ⟨hadd, hnone⟩ := hrest.addAll_inner hnext (tally.add kind)
      have hfound : found = [type] := by
        show List.filterMap _ (List.takeWhile _ (kind :: rest.map Prod.fst)) = [type]
        rw [List.takeWhile_cons_of_pos (by simp [HeaderKind.isIp_of_isTransport hkind]), hnone,
          List.filterMap_cons, htype]
        rfl
      rw [hfound]
      refine ⟨?_, Nat.le_refl 1⟩
      show (tally.add kind).addAll rest = _
      rw [hadd, htally]
      rfl

/-- The tally of the headers of a chain, read off their kinds. -/
theorem Ordered.tally_eq (h : Ordered 0 outlines) (tally : Tally) :
    let kinds := outlines.map Prod.fst
    let found := (outermost kinds).filterMap HeaderKind.transport?
    tally.addAll outlines =
        { network := ((kinds.find? HeaderKind.isIp).bind HeaderKind.network?).getD tally.network
          transport := found.headD tally.transport
          vlans := tally.vlans + kinds.count .vlan
          labels := tally.labels + kinds.count .mpls } ∧
      found.length ≤ 1 := by
  generalize hcount : 0 = count at h
  induction h generalizing tally with
  | nil => exact ⟨rfl, Nat.zero_le 1⟩
  | transport _ _ _ _ => cases hcount
  | @link kind rest hkind hrest ih =>
      have hip : kind.isIp = false := by
        cases kind <;> first | rfl | cases hkind
      have houtermost : outermost (kind :: rest.map Prod.fst) =
          outermost (rest.map Prod.fst) := by
        rw [outermost, List.dropWhile_cons_of_pos (by simp [hip]), outermost]
      have hadd : tally.add kind = { tally with
          vlans := tally.vlans + [kind].count .vlan
          labels := tally.labels + [kind].count .mpls } := by
        cases kind <;> first | rfl | cases hkind
      obtain ⟨htally, hfound⟩ := ih (tally.add kind) rfl
      intro kinds found
      have hkinds : kinds = [kind] ++ rest.map Prod.fst := rfl
      have hsame : found = (outermost (rest.map Prod.fst)).filterMap HeaderKind.transport? :=
        congrArg (List.filterMap HeaderKind.transport?) houtermost
      rw [hsame]
      refine ⟨?_, hfound⟩
      show (tally.add kind).addAll rest = _
      rw [htally, hadd, hkinds, List.count_append, List.count_append, List.singleton_append,
        List.find?_cons_of_neg (by simp [hip]), Nat.add_assoc, Nat.add_assoc]
  | @network kind _ rest hkind hrest ih =>
      subst hcount
      obtain ⟨type, htype, hadd⟩ := Tally.add_of_isIp hkind
      obtain ⟨htally, hfound⟩ := hrest.addAll_behind (tally.add kind)
      have houtermost : outermost (kind :: rest.map Prod.fst) =
          (rest.map Prod.fst).takeWhile fun kind => !kind.isIp := by
        rw [outermost, List.dropWhile_cons_of_neg (by simp [hkind]), List.tail_cons]
      have hlink := HeaderKind.isLink_of_isIp hkind
      have hvlan : kind ≠ .vlan := by
        rintro rfl
        cases hlink
      have hmpls : kind ≠ .mpls := by
        rintro rfl
        cases hlink
      intro kinds found
      have hkinds : kinds = kind :: rest.map Prod.fst := rfl
      have hsame : found = ((rest.map Prod.fst).takeWhile fun kind => !kind.isIp).filterMap
          HeaderKind.transport? :=
        congrArg (List.filterMap HeaderKind.transport?) houtermost
      rw [hsame]
      refine ⟨?_, hfound⟩
      show (tally.add kind).addAll rest = _
      rw [htally, hadd, hkinds, List.count_cons_of_ne hvlan, List.count_cons_of_ne hmpls,
        hrest.count_link (Nat.succ_ne_zero 0) rfl, hrest.count_link (Nat.succ_ne_zero 0) rfl,
        List.find?_cons_of_pos hkind, Option.bind_some, htype]
      rfl

end Outlines

end Dissection
