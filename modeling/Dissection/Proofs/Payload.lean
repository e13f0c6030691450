import Dissection.Proofs.CommonFront
import Dissection.Proofs.Completeness
import Dissection.Proofs.Location
import Dissection.Proofs.Refusals

namespace Dissection

open Bytes

section Chains

variable {expected : Expected} {bytes other : Bytes} {found : Scanned Layer Ending}

theorem Finds.chain_hushed {same layer : Layer} {next : Expected}
    (h : Finds other expected same next) (hhushed : same.hushed = layer.hushed)
    (hlength : layer.span ≤ other.length) :
    (chain expected other).items.map Layer.hushed =
      layer.hushed :: (chain next (other.drop layer.span)).items.map Layer.hushed := by
  have hspan : same.span = layer.span := by rw [← same.span_hushed, hhushed, layer.span_hushed]
  rw [← hspan] at hlength ⊢
  rw [← hhushed, chain, scan_of_take .silent chainStep_advances h.chainStep_eq hlength]
  rfl

/-- A chain that ends with a final header is the same for all bytes that have it in common. -/
theorem Scans.agree (h : Scans chainStep .silent expected bytes found) {init : List Layer}
    {layer : Layer} (hitems : found.items = init ++ [layer]) (hfinal : layer.kind.isFinal = true)
    (hsize : 2 ≤ layer.span) {count : Nat} (hcount : total Layer.span found.items ≤ count)
    (hlength : count ≤ bytes.length) (hagree : Agree count bytes other) :
    (chain expected other).items.map Layer.hushed = found.items.map Layer.hushed := by
  induction h generalizing init count other with
  | stop _ => cases init <;> cases hitems
  | last hmove hcut =>
      obtain ⟨rfl, _⟩ := chainStep_eq_take_iff.mp hmove
      rw [total_cons] at hcount
      omega
  | @take expected next bytes item size behind hmove hwhole hbehind ih =>
      obtain ⟨rfl, hfinds⟩ := chainStep_eq_take_iff.mp hmove
      rw [Scanned.cons_items, total_cons] at hcount
      have hroom := hagree.length_le (by omega) hwhole
      rw [Scanned.cons_items, List.map_cons]
      cases init with
      | nil =>
          obtain ⟨rfl, hnil⟩ := List.cons.inj hitems
          obtain ⟨⟨ending, rfl⟩, _, _⟩ := hfinds.final hfinal
          obtain ⟨same, hsame, hhushed⟩ := hfinds.agree ⟨by omega, .inl hfinal⟩ hagree
          have hend : (chain (.nothing ending) (other.drop item.span)).items = [] :=
            (scans_scan chainStep_advances _ _).items_eq_nil_of_nothing
          rw [hsame.chain_hushed hhushed hroom, hend, hnil]
      | cons first init =>
          have hothers : behind.items = init ++ [layer] := (List.cons.inj hitems).2
          have hnext : ∀ ending, next ≠ .nothing ending := by
            rintro ending rfl
            rw [hbehind.items_eq_nil_of_nothing] at hothers
            cases init <;> cases hothers
          have hmore : 2 ≤ total Layer.span behind.items := by
            rw [hothers, total_append, total_cons]
            omega
          obtain ⟨same, hsame, hhushed⟩ :=
            hfinds.agree ⟨by omega, .inr ⟨by omega, hnext⟩⟩ hagree
          rw [hsame.chain_hushed hhushed hroom,
            ih hothers (by omega) (by rw [List.length_drop]; omega) (hagree.drop item.span)]

theorem Scans.final_recorded (h : Scans chainStep .silent expected bytes found)
    {front : List Piece} (hfront : front <+: layerPieces 0 found.items)
    {before after : List Placement} {place : Placement}
    (hplaces : widened front = before ++ place :: after) {kind : HeaderKind}
    (hid : place.id = kind.id) (hfinal : kind.isFinal = true) :
    ∃ init layer, found.items = init ++ [layer] ∧ layer.kind = kind ∧ 2 ≤ layer.span ∧
      total Layer.span found.items = place.stop := by
  have hcore : place.isCore = true := by rw [Placement.isCore, hid, HeaderKind.isCore_id]
  obtain ⟨site, hlayers, rfl, _, _⟩ := Dissection.exists_site h.shaped hfront hplaces hcore
  have hkind : site.layer.kind = kind := HeaderKind.id_inj.mp hid
  obtain ⟨_, next, hfinds, hrest⟩ := h.finds_at hlayers.symm
  obtain ⟨⟨ending, rfl⟩, htrailers, hlength⟩ := hfinds.final (hkind ▸ hfinal)
  have hnil : site.rest = [] := by
    rcases hrest with ⟨hnil, _⟩ | hscans
    · exact hnil
    · exact hscans.items_eq_nil_of_nothing
  have hspan : site.layer.span = site.layer.length := by simp [Layer.span, htrailers]
  have hparts : trailed site.parts = 0 := Layer.trailed_of_front htrailers site.parts_front
  have hitems : found.items = site.init ++ [site.layer] := by rw [← hlayers, Site.layers, hnil]
  refine ⟨site.init, site.layer, hitems, hkind, by omega, ?_⟩
  rw [hitems, total_append, total_cons, total_nil, hspan]
  show _ = 0 + total Layer.span site.init + (site.layer.length + trailed site.parts)
  rw [hparts]
  omega

end Chains

namespace Dissector

variable {dissector : Dissector} {frame other : Bytes} {captured wire otherWire : Nat}
  {timestamp otherTimestamp : UInt64}

theorem countP_dissect {bytes : Bytes} (timestamp : UInt64)
    (hextension : dissector.extension = none) (h : dissector.captured? frame captured wire = .ok bytes) {kind : Event → Bool}
    (hkind : ∀ offset note, kind (.noted offset note) = false) :
    (dissector.dissect frame timestamp captured wire).events.countP kind =
      (dissector.recorded bytes captured).heard.events.countP kind := by
  obtain ⟨ending, hconcluded⟩ := dissector.exists_concluded timestamp h
  obtain ⟨note, hnote⟩ := events_conclude_none bytes (dissector.recorded bytes captured).table
    ((dissector.recorded bytes captured).reached.getD 0) ending
  have hnotes : (note.map (Event.noted
      ((dissector.recorded bytes captured).reached.getD 0))).toList.countP kind = 0 := by
    cases note <;> simp [hkind]
  have hheard := (dissector.recorded bytes captured).toRecorded.countP_heard hkind
  rw [hconcluded, hextension]
  show ((dissector.recorded bytes captured).events ++ _).countP kind = _
  rw [hnote, List.countP_append, hnotes, Nat.add_zero, ← hheard]
  rfl

/-- Whatever follows a final header that is recorded, a packet shows the same. -/
theorem payload_dissect {count otherCount : Nat} (hextension : dissector.extension = none)
    (h : (dissector.dissect frame timestamp captured wire).result = .ok count)
    (hother : (dissector.dissect other otherTimestamp captured otherWire).result = .ok otherCount)
    {before after : List Placement} {last : Placement} {kind : HeaderKind}
    (hplaces : (dissector.dissect frame timestamp captured wire).dissector.table.places =
      before ++ last :: after) (hid : last.id = kind.id) (hfinal : kind.isFinal = true)
    (hagree : Agree last.stop frame other) :
    let one := dissector.dissect frame timestamp captured wire
    let two := dissector.dissect other otherTimestamp captured otherWire
    one.result = two.result ∧ one.dissector.table = two.dissector.table ∧
      one.dissector.packet.summary = two.dissector.packet.summary ∧
      ∀ counters, (Session.perform ⟨dissector, counters⟩
          (.dissect frame timestamp captured wire)).1.counters =
        (Session.perform ⟨dissector, counters⟩
          (.dissect other otherTimestamp captured otherWire)).1.counters := by
  intro one two
  obtain ⟨hframe, hbytes⟩ := captured?_of_dissect h
  obtain ⟨_, hotherBytes⟩ := captured?_of_dissect hother
  have hscans : Scans chainStep .silent (.ethernet dissector.settings.datalink)
      (frame.take captured) (frameChain dissector.settings.datalink (frame.take captured)) :=
    scans_scan chainStep_advances _ _
  have hstop : last.stop ≤ captured :=
    stop_le_of_dissect timestamp hextension hbytes last (by rw [hplaces]; simp)
  rw [places_dissect timestamp hextension hbytes] at hplaces
  obtain ⟨init, layer, hitems, rfl, hsize, hspan⟩ :=
    hscans.final_recorded (accepted_front _ _ _) hplaces hid hfinal
  have hcaptured : Agree last.stop (frame.take captured) (other.take captured) := by
    rw [Agree, List.take_take, List.take_take, Nat.min_eq_left hstop, hagree]
  have hchain := hscans.agree hitems hfinal hsize hspan.le
    (by rw [List.length_take_of_le hframe]; exact hstop) hcaptured
  have hrecorded : (dissector.recorded (frame.take captured) captured).heard =
      (dissector.recorded (other.take captured) captured).heard := by
    rw [recorded, recorded, recordLayers_hushed, ← hchain, frameChain, ← recordLayers_hushed]
  have hcount {kind : Event → Bool} (hkind : ∀ offset note, kind (.noted offset note) = false) :
      one.events.countP kind = two.events.countP kind := by
    rw [countP_dissect timestamp hextension hbytes hkind,
      countP_dissect otherTimestamp hextension hotherBytes hkind, hrecorded]
  have hresult : one.result = two.result := by
    rw [result_dissect timestamp hbytes, result_dissect otherTimestamp hotherBytes]
  obtain ⟨hsame, hsummary, _⟩ := Progress.heard_eq_iff.mp hrecorded
  refine ⟨hresult, ?_, ?_, ?_⟩
  · rw [table, table, packet_dissect timestamp hextension hbytes,
      packet_dissect otherTimestamp hextension hotherBytes]
    exact (Recorded.heard_eq_iff.mp hsame).1
  · rw [packet_dissect timestamp hextension hbytes,
      packet_dissect otherTimestamp hextension hotherBytes]
    exact hsummary
  · intro counters
    simp only [Session.perform, h, hother]
    cases h.symm.trans (hresult.trans hother)
    rw [Counters.count, Counters.count, hcount fun _ _ => rfl, hcount fun _ _ => rfl]

/-- A TCP header whose options end in the kind of one, before a payload that is taken for its
length. -/
def peekedFrame (payload : UInt8) : Bytes :=
  List.replicate 12 0 ++ [0x08, 0x00, 0x45, 0, 0, 0, 0, 0, 0, 0, 64, 6] ++ List.replicate 22 0 ++
    [0x60, 0, 0, 0, 0, 0, 0, 0, 1, 1, 1, 8, payload]

theorem payload_peekedFrame :
    let one := (new .default).dissect (peekedFrame 2) 0 59 59
    let two := (new .default).dissect (peekedFrame 200) 0 59 59
    one.result = .ok 59 ∧ two.result = .ok 59 ∧
      one.dissector.table.places =
        [⟨HeaderKind.ethernet.id, 0, 14⟩, ⟨HeaderKind.ipv4.id, 14, 20⟩] ++
          ⟨HeaderKind.tcp.id, 34, 24⟩ :: [⟨TcpOption.nop.id, 54, 1⟩, ⟨TcpOption.nop.id, 55, 1⟩,
            ⟨TcpOption.nop.id, 56, 1⟩] ∧
      Agree 58 (peekedFrame 2) (peekedFrame 200) ∧ one.dissector.table = two.dissector.table := by
  intro one two
  have hone : one.result = .ok 59 := by decide
  have htwo : two.result = .ok 59 := by decide
  have hplaces : one.dissector.table.places =
      [⟨HeaderKind.ethernet.id, 0, 14⟩, ⟨HeaderKind.ipv4.id, 14, 20⟩] ++
        ⟨HeaderKind.tcp.id, 34, 24⟩ :: [⟨TcpOption.nop.id, 54, 1⟩, ⟨TcpOption.nop.id, 55, 1⟩,
          ⟨TcpOption.nop.id, 56, 1⟩] := by decide
  have hagree : Agree 58 (peekedFrame 2) (peekedFrame 200) := rfl
  obtain ⟨_, htable, _⟩ := payload_dissect rfl hone htwo hplaces rfl rfl hagree
  exact ⟨hone, htwo, hplaces, hagree, htable⟩

end Dissector

end Dissection
