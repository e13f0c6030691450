import Mathlib.Tactic.ByContra
import Dissection.Proofs.Announcement
import Dissection.Proofs.Geometry

namespace Dissection

namespace HeaderKind

def isIp : HeaderKind → Bool
  | .ipv4 | .ipv6 => true
  | _ => false

/-- Whether an IP header behind the header is entered by nesting. -/
def nests : HeaderKind → Bool
  | .ipv4 | .ipv6 | .gre | .icmp6DestinationUnreachable | .icmp6TimeExceeded
  | .icmp6ParameterProblem => true
  | _ => false

theorem nests_of_isIp {kind : HeaderKind} (h : kind.isIp = true) : kind.nests = true := by
  cases kind <;> first | rfl | cases h

end HeaderKind

/-- Whether the place is that of an IP header. -/
def Placement.isIp (place : Placement) : Bool :=
  place.id = HeaderKind.ipv4.id || place.id = HeaderKind.ipv6.id

/-- The count of IP headers among places. -/
def ipPlaces (places : List Placement) : Nat :=
  places.countP Placement.isIp

/-- The count of IP headers among layers. -/
def ipLayers (layers : List Layer) : Nat :=
  layers.countP fun layer => layer.kind.isIp

theorem ipLayers_cons (layer : Layer) (layers : List Layer) :
    ipLayers (layer :: layers) = layer.kind.isIp.toNat + ipLayers layers := by
  rw [ipLayers, List.countP_cons, Nat.add_comm]
  cases layer.kind.isIp <;> rfl

theorem HeaderKind.isIp_place (kind : HeaderKind) (offset length : Nat) :
    (⟨kind.id, offset, length⟩ : Placement).isIp = kind.isIp := by
  cases kind <;> simp [Placement.isIp, HeaderKind.isIp]

theorem Placement.isIp_of_not_core {place : Placement} (h : place.isCore = false) :
    place.isIp = false := by
  by_contra hip
  simp only [Placement.isIp, Bool.not_eq_false, Bool.or_eq_true, decide_eq_true_eq] at hip
  rcases hip with hid | hid <;> simp [Placement.isCore, hid] at h

theorem ipPlaces_eq_zero {places : List Placement} (h : ∀ place ∈ places, place.isCore = false) :
    ipPlaces places = 0 := by
  rw [ipPlaces, List.countP_eq_zero]
  intro place hplace
  rw [Placement.isIp_of_not_core (h place hplace)]
  decide

theorem Layer.Shaped.ipPlaces_eq {layer : Layer} (h : layer.Shaped) {front : List Piece}
    {offset : Nat} (hfront : front <+: layer.parts offset) (start length : Nat) :
    ipPlaces (⟨layer.kind.id, start, length⟩ :: front.map Piece.place) =
      layer.kind.isIp.toNat := by
  have hparts : List.countP Placement.isIp (front.map Piece.place) = 0 :=
    ipPlaces_eq_zero (h.isCore_parts hfront)
  rw [ipPlaces, List.countP_cons, hparts, layer.kind.isIp_place, Nat.zero_add]
  cases layer.kind.isIp <;> rfl

theorem ipPlaces_layerPieces {layers : List Layer} (offset : Nat)
    (hshaped : ∀ layer ∈ layers, layer.Shaped) :
    ipPlaces (widened (layerPieces offset layers)) = ipLayers layers := by
  induction layers generalizing offset with
  | nil => rfl
  | cons layer rest ih =>
      rw [List.forall_mem_cons] at hshaped
      rw [layerPieces, Layer.pieces, List.cons_append,
        widened_front _ List.prefix_rfl List.prefix_rfl, ← List.cons_append, ipPlaces,
        List.countP_append]
      have hlayer := hshaped.1.ipPlaces_eq (List.prefix_refl (layer.parts offset)) offset
        (layer.length + trailed (layer.parts offset))
      have hrest := ih (offset + layer.span) hshaped.2
      rw [ipPlaces] at hlayer hrest
      rw [hlayer, hrest, ipLayers_cons]

namespace Expected

/-- What is expected behind `count` IP headers, of which none is beyond the limit. -/
def Behind (count : Nat) : Expected → Prop
  | .ipv4 depth | .ipv6 depth | .quoted depth => count = depth ∧ depth < nestingLimit
  | .tcp depth | .udp depth | .sctp depth | .gre depth | .icmp4 depth | .icmp6 depth =>
      count = depth + 1 ∧ depth < nestingLimit
  | .nothing _ => True
  | _ => count = 0

theorem behind_nested (depth : Nat) {inside : Nat → Expected}
    (h : ∀ depth, depth < nestingLimit → (inside depth).Behind depth) :
    (nested depth inside).Behind (depth + 1) := by
  unfold nested
  split
  · exact h _ ‹_›
  · trivial

theorem behind_nested_ipv4 (depth : Nat) : (nested depth .ipv4).Behind (depth + 1) :=
  behind_nested depth fun _ h => ⟨rfl, h⟩

theorem behind_nested_ipv6 (depth : Nat) : (nested depth .ipv6).Behind (depth + 1) :=
  behind_nested depth fun _ h => ⟨rfl, h⟩

theorem behind_nested_quoted (depth : Nat) : (nested depth .quoted).Behind (depth + 1) :=
  behind_nested depth fun _ h => ⟨rfl, h⟩

theorem behind_ofEtherType (etherType : Nat) : (ofEtherType etherType).Behind 0 := by
  unfold ofEtherType
  split <;> simp [Behind, nestingLimit]

theorem behind_ofTypeField (field : Nat) : (ofTypeField field).Behind 0 := by
  unfold ofTypeField
  split
  · rfl
  · split
    · rfl
    · exact behind_ofEtherType field

theorem behind_ofServicePoints (destination source control : Nat) :
    (ofServicePoints destination source control).Behind 0 := by
  unfold ofServicePoints
  split <;> simp [Behind]

theorem behind_ofIpNumber {depth : Nat} (number : Nat) (h : depth < nestingLimit) :
    (ofIpNumber depth number).Behind (depth + 1) := by
  unfold ofIpNumber
  split
  case h_7 => exact behind_nested_ipv4 depth
  case h_8 => exact behind_nested_ipv6 depth
  all_goals simp [Behind, h]

theorem behind_ofGrePayload (depth etherType : Nat) :
    (ofGrePayload depth etherType).Behind (depth + 1) := by
  unfold ofGrePayload
  split
  · exact behind_nested_ipv4 depth
  · exact behind_nested_ipv6 depth
  · trivial

end Expected

/-- Behind a header there are as many IP headers as before it, and itself if it is one.
Of those that may nest others, all but one count to the depth. -/
theorem Finds.behind {expected next : Expected} {rest : Bytes} {layer : Layer} {count : Nat}
    (h : Finds rest expected layer next) (hcount : expected.Behind count) :
    next.Behind (count + layer.kind.isIp.toNat) ∧
      (layer.kind.nests = true →
        count + layer.kind.isIp.toNat = layer.depth + 1 ∧ layer.depth < Expected.nestingLimit) := by
  induction h with
  | ethernet _ | vlan _ =>
      cases hcount
      exact ⟨Expected.behind_ofTypeField _, fun hnests => absurd hnests Bool.false_ne_true⟩
  | llc _ _ _ _ _ =>
      cases hcount
      exact ⟨Expected.behind_ofServicePoints _ _ _, fun hnests => absurd hnests Bool.false_ne_true⟩
  | snap _ =>
      cases hcount
      exact ⟨Expected.behind_ofEtherType _, fun hnests => absurd hnests Bool.false_ne_true⟩
  | mpls _ =>
      cases hcount
      refine ⟨?_, fun hnests => absurd hnests Bool.false_ne_true⟩
      split <;> rfl
  | ipv4 _ _ _ _ _ =>
      obtain ⟨rfl, hdepth⟩ := hcount
      refine ⟨?_, fun _ => ⟨rfl, hdepth⟩⟩
      split
      · trivial
      · exact Expected.behind_ofIpNumber _ hdepth
  | ipv6Cut _ _ _ _ =>
      obtain ⟨rfl, hdepth⟩ := hcount
      exact ⟨trivial, fun _ => ⟨rfl, hdepth⟩⟩
  | ipv6 _ _ _ _ =>
      obtain ⟨rfl, hdepth⟩ := hcount
      exact ⟨Expected.behind_ofIpNumber _ hdepth, fun _ => ⟨rfl, hdepth⟩⟩
  | labelledIpv4 _ _ _ ih | labelledIpv6 _ _ _ ih =>
      cases hcount
      exact ih ⟨rfl, by decide⟩
  | quotedIpv4 _ _ _ ih | quotedIpv6 _ _ _ ih => exact ih hcount
  | gre _ _ _ =>
      obtain ⟨rfl, hdepth⟩ := hcount
      exact ⟨Expected.behind_ofGrePayload _ _, fun _ => ⟨rfl, hdepth⟩⟩
  | icmp6Error _ hkind =>
      obtain ⟨rfl, hdepth⟩ := hcount
      have hplain : ∀ message ∈ icmp6Errors, message.2.isIp = false := by decide
      rw [Layer.plain, hplain _ hkind]
      exact ⟨Expected.behind_nested_quoted _, fun _ => ⟨rfl, hdepth⟩⟩
  | icmp4Echo _ hkind =>
      have hplain : ∀ message ∈ icmp4Echoes, message.2.nests = false := by decide
      refine ⟨trivial, fun hnests => ?_⟩
      rw [Layer.plain, hplain _ hkind] at hnests
      cases hnests
  | icmp6Echo _ hkind =>
      have hplain : ∀ message ∈ icmp6Echoes, message.2.nests = false := by decide
      refine ⟨trivial, fun hnests => ?_⟩
      rw [Layer.plain, hplain _ hkind] at hnests
      cases hnests
  | icmp6Discovery _ hkind =>
      have hplain : ∀ message ∈ icmp6Discoveries, message.2.1.nests = false := by decide
      refine ⟨trivial, fun hnests => ?_⟩
      rw [hplain _ hkind] at hnests
      cases hnests
  | novellFrame =>
      cases hcount
      exact ⟨rfl, fun hnests => absurd hnests Bool.false_ne_true⟩
  | _ => exact ⟨trivial, fun hnests => absurd hnests Bool.false_ne_true⟩

theorem Scans.first {expected : Expected} {rest : Bytes} {layer : Layer} {behind : List Layer}
    {ending : Ending} (h : Scans chainStep .silent expected rest ⟨layer :: behind, ending⟩) :
    ∃ next, Finds rest expected layer next ∧
      (rest.length < layer.span ∨
        Scans chainStep .silent next (rest.drop layer.span) ⟨behind, ending⟩) := by
  generalize hfound : (⟨layer :: behind, ending⟩ : Scanned Layer Ending) = found at h
  cases h with
  | stop _ => cases hfound
  | last hmove hsize =>
      obtain ⟨rfl, hfinds⟩ := chainStep_eq_take_iff.mp hmove
      cases hfound
      exact ⟨_, hfinds, .inl hsize⟩
  | take hmove _ hbehind =>
      obtain ⟨rfl, hfinds⟩ := chainStep_eq_take_iff.mp hmove
      cases hfound
      exact ⟨_, hfinds, .inr hbehind⟩

theorem Scans.resume {expected : Expected} {rest : Bytes} {found : Scanned Layer Ending}
    (h : Scans chainStep .silent expected rest found) (hstart : expected ≠ .ethernet .novellRaw)
    {count : Nat} (hcount : expected.Behind count) {init behind : List Layer} {layer : Layer}
    (hitems : found.items = init ++ layer :: behind) :
    ∃ before, before ≠ .ethernet .novellRaw ∧ before.Behind (count + ipLayers init) ∧
      Scans chainStep .silent before (rest.drop (total Layer.span init))
        ⟨layer :: behind, found.verdict⟩ := by
  induction h generalizing init count with
  | stop _ => cases init <;> cases hitems
  | @last expected next rest item size hmove hsize =>
      cases init with
      | nil =>
          cases hitems
          exact ⟨expected, hstart, hcount, .last hmove hsize⟩
      | cons first init => cases init <;> cases (List.cons.inj hitems).2
  | @take expected next rest item size found hmove hsize hbehind ih =>
      cases init with
      | nil =>
          cases hitems
          exact ⟨expected, hstart, hcount, .take hmove hsize hbehind⟩
      | cons first init =>
          obtain ⟨rfl, hothers⟩ := List.cons.inj hitems
          obtain ⟨rfl, hfinds⟩ := chainStep_eq_take_iff.mp hmove
          have hnext : next ≠ .ethernet .novellRaw := by
            rintro rfl
            cases hfinds.isEthernet_next
          obtain ⟨before, hbefore, hcount, hresumed⟩ :=
            ih hnext (hfinds.behind hcount).1 hothers
          rw [List.drop_drop] at hresumed
          rw [total_cons, ipLayers_cons, ← Nat.add_assoc count]
          exact ⟨before, hbefore, hcount, hresumed⟩

end Dissection
