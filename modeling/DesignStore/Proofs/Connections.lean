/-
Connections between nets and pins.

A connection is noted on both sides: the net lists the pin in an array, and the pin names the net.
The array only grows and the pin names one net, so the sides agree on a pin that was connected to
one net.  Of a pin that was connected again the net it names is the last, and the nets before it
list it still (`connections_two_sided`).

The entries of the records say what a call does.  Its `Effect` tells the pins that nets list from
then on and the nets that pins name, as wires.  One effect follows another by putting the wires
together (`Effect.trans`), so the effect of a run is read off the calls (`effect_run`).
-/
import DesignStore.Netlist
import DesignStore.Proofs.ChildCells
import DesignStore.Proofs.MemoryReport

namespace DesignStore

/-- The array in which an instance or a net lists its pins. -/
def RecordKind.pins? : (k : RecordKind) → k.Body → Option ObjectId
  | .inst, b => (b : Inst).pins
  | .net, b => (b : Net).pins
  | _, _ => none

/-- The net that a pin names. -/
def RecordKind.net? : (k : RecordKind) → k.Body → Option ObjectId
  | .pin, b => (b : Pin).net
  | _, _ => none

namespace Entry

variable {e : Entry}

def pins? (e : Entry) : Option ObjectId :=
  e.kind.pins? e.record.body

def net? (e : Entry) : Option ObjectId :=
  e.kind.net? e.record.body

theorem kind_of_pins? {a : ObjectId} (h : e.pins? = some a) : e.kind = .inst ∨ e.kind = .net := by
  obtain ⟨k, x⟩ := e
  cases k with
  | inst => exact Or.inl rfl
  | net => exact Or.inr rfl
  | _ => contradiction

theorem net?_eq_none (h : e.kind ≠ .pin) : e.net? = none := by
  obtain ⟨k, x⟩ := e
  cases k with
  | pin => contradiction
  | _ => rfl

end Entry

namespace Netlist

/-! ## Wires -/

/-- A connection of a pin to a net. -/
structure Wire where
  net : ObjectId
  pin : ObjectId
  deriving DecidableEq, Repr

/-- The pins of the wires at a net. -/
def pinsAt (net : ObjectId) (l : List Wire) : List ObjectId :=
  (l.filter (·.net = net)).map (·.pin)

/-- The net of the last wire at a pin. -/
def lastNet (pin : ObjectId) (l : List Wire) : Option ObjectId :=
  (l.filter (·.pin = pin)).getLast?.map (·.net)

section Wires

variable {net pin : ObjectId} {l l' : List Wire}

theorem pinsAt_append : pinsAt net (l ++ l') = pinsAt net l ++ pinsAt net l' := by
  simp only [pinsAt, List.filter_append, List.map_append]

theorem pinsAt_singleton (net pin : ObjectId) : pinsAt net [⟨net, pin⟩] = [pin] := by
  simp [pinsAt]

theorem pinsAt_sublist (h : l.Sublist l') : (pinsAt net l).Sublist (pinsAt net l') :=
  (h.filter _).map _

theorem mem_pinsAt : pin ∈ pinsAt net l ↔ (⟨net, pin⟩ : Wire) ∈ l := by
  simp only [pinsAt, List.mem_map, List.mem_filter, decide_eq_true_eq]
  constructor
  · rintro ⟨w, ⟨hw, rfl⟩, rfl⟩
    exact hw
  · exact fun h => ⟨_, ⟨h, rfl⟩, rfl⟩

theorem lastNet_append : lastNet pin (l ++ l') = (lastNet pin l').or (lastNet pin l) := by
  simp only [lastNet, List.filter_append, List.getLast?_append]
  cases (l'.filter (·.pin = pin)).getLast? <;> rfl

theorem lastNet_singleton (net pin : ObjectId) : lastNet pin [⟨net, pin⟩] = some net := by
  simp [lastNet]

theorem lastNet_eq_none (h : ∀ w ∈ l, w.pin ≠ pin) : lastNet pin l = none := by
  have hnil : l.filter (·.pin = pin) = [] :=
    List.filter_eq_nil_iff.2 fun w hw => by simpa using h w hw
  simp only [lastNet, hnil, List.getLast?_nil, Option.map_none]

theorem mem_of_lastNet (h : lastNet pin l = some net) : (⟨net, pin⟩ : Wire) ∈ l := by
  obtain ⟨w, hw, rfl⟩ := Option.map_eq_some_iff.1 h
  obtain ⟨hw, hpin⟩ := List.mem_filter.1 (List.mem_of_getLast? hw)
  rwa [← of_decide_eq_true hpin]

theorem exists_lastNet (h : (⟨net, pin⟩ : Wire) ∈ l) : ∃ n, lastNet pin l = some n := by
  have hne : l.filter (·.pin = pin) ≠ [] :=
    List.ne_nil_of_mem (List.mem_filter.2 ⟨h, decide_eq_true rfl⟩)
  exact ⟨_, by rw [lastNet, List.getLast?_eq_some_getLast hne, Option.map_some]⟩

end Wires
end Netlist

namespace Registry

open Netlist

variable {r r₁ r' r'' : Registry} {id q a v : ObjectId} {e e' : Entry} {new : List ScopeTag}

/-! ## Records that list and name -/

/-- What an array of handles lists. -/
def itemsAt (r : Registry) (array : Option ObjectId) : List ObjectId :=
  ((array.bind r.stored?).bind Entry.items?).getD []

/-- The pins that a net lists. -/
def netPins (r : Registry) (net : ObjectId) : List ObjectId :=
  r.itemsAt (((r.stored? net).filter (·.kind = .net)).bind Entry.pins?)

/-- The net that a pin names. -/
def pinNet (r : Registry) (pin : ObjectId) : Option ObjectId :=
  (r.stored? pin).bind Entry.net?

/-- The arrays in which instances and nets list their pins are there, and no two of these records
share one.  Pins own no scope. -/
structure Wired (r : Registry) : Prop where
  sound : r.Sound
  head : ∀ o, r.isScopeOwner o = true → ∃ e, r.stored? o = some e ∧ e.kind ≠ .pin
  array : ∀ q e a, r.stored? q = some e → e.pins? = some a →
    ∃ x, r.stored? a = some { kind := .ids, record := x }
  sole : ∀ q q' e e' a, r.stored? q = some e → r.stored? q' = some e' → e.pins? = some a →
    e'.pins? = some a → q = q'

/-- The same pins are live, and say the same. -/
def SamePins (r r' : Registry) : Prop :=
  ∀ p e, e.kind = .pin → (r'.stored? p = some e ↔ r.stored? p = some e)

theorem itemsAt_some {x : Record (GrowArray ObjectId)}
    (h : r.stored? a = some { kind := .ids, record := x }) :
    r.itemsAt (some a) = x.body.toList := by
  rw [itemsAt, Option.bind_some, h]
  rfl

theorem netPins_of_net (h : r.stored? q = some e) (hk : e.kind = .net) :
    r.netPins q = r.itemsAt e.pins? := by
  rw [netPins, h, Option.filter_some, if_pos (decide_eq_true hk), Option.bind_some]

theorem netPins_eq_nil (h : ∀ e, r.stored? q = some e → e.kind = .net → e.pins? = none) :
    r.netPins q = [] := by
  have hnone : ((r.stored? q).filter (·.kind = .net)).bind Entry.pins? = none := by
    rw [Option.bind_eq_none_iff]
    intro e he
    obtain ⟨he, hk⟩ := Option.filter_eq_some_iff.1 he
    exact h e he (of_decide_eq_true hk)
  rw [netPins, hnone]
  rfl

theorem SamePins.pinNet (h : SamePins r r') (p : ObjectId) : r'.pinNet p = r.pinNet p := by
  have hnet (s : Registry) (n : ObjectId) : s.pinNet p = some n ↔
      ∃ e, s.stored? p = some e ∧ e.kind = .pin ∧ e.net? = some n := by
    rw [Registry.pinNet, Option.bind_eq_some_iff]
    refine exists_congr fun e => and_congr_right fun _ => ⟨fun hn => ⟨?_, hn⟩, And.right⟩
    by_contra hk
    rw [Entry.net?_eq_none hk] at hn
    contradiction
  refine Option.ext fun n => ?_
  rw [hnet, hnet]
  exact exists_congr fun e =>
    ⟨fun ⟨he, hk, hn⟩ => ⟨(h p e hk).1 he, hk, hn⟩, fun ⟨he, hk, hn⟩ => ⟨(h p e hk).2 he, hk, hn⟩⟩

theorem SamePins.trans (h : SamePins r r') (h' : SamePins r' r'') : SamePins r r'' :=
  fun p e hk => (h' p e hk).trans (h p e hk)

namespace Wired

/-- An array in which pins are listed is none of the records that are not arrays. -/
theorem pins?_ne (h : r.Wired) (hid : ∀ x, r.stored? id ≠ some { kind := .ids, record := x })
    (he : r.stored? q = some e) : e.pins? ≠ some id := by
  intro hp
  obtain ⟨x, hx⟩ := h.array q e id he hp
  exact hid x hx

/-- What is not a pin stays of its kind, and what lists pins does so in an array that no other
record has. -/
theorem stores (h : r.Wired) {o : Option Entry} (hs : Stores id o new r r')
    (hkind : ∀ y, r.stored? id = some y → y.kind ≠ .pin → ∃ z, o = some z ∧ z.kind = y.kind)
    (hpins : ∀ y b, o = some y → y.pins? = some b →
      (∃ x, r.stored? b = some { kind := .ids, record := x }) ∧
        ∀ j z, j ≠ id → r.stored? j = some z → z.pins? ≠ some b) : r'.Wired := by
  have hkept (j : ObjectId) (y : Entry) (hy : r.stored? j = some y) (hn : y.kind ≠ .pin) :
      ∃ z, r'.stored? j = some z ∧ z.kind = y.kind := by
    by_cases hj : j = id
    · obtain ⟨z, hz, hzy⟩ := hkind y (hj ▸ hy) hn
      exact ⟨z, by rw [hj, hs.self, hz], hzy⟩
    · exact ⟨y, (hs.other hj).trans hy, rfl⟩
  have hids (b : ObjectId) (hb : ∃ x, r.stored? b = some { kind := .ids, record := x }) :
      ∃ x, r'.stored? b = some { kind := .ids, record := x } := by
    obtain ⟨x, hx⟩ := hb
    obtain ⟨⟨k, z⟩, hz, hk⟩ := hkept b _ hx (by simp)
    cases hk
    exact ⟨z, hz⟩
  refine ⟨hs.evolves.sound, fun o ho => ?_, fun q e b he hb => ?_,
    fun q q' e e' b he he' hb hb' => ?_⟩
  · rw [isScopeOwner, hs.owners] at ho
    obtain ⟨y, hy, hn⟩ := h.head o ho
    obtain ⟨z, hz, hk⟩ := hkept o y hy hn
    exact ⟨z, hz, hk ▸ hn⟩
  · by_cases hq : q = id
    · exact hids b (hpins e b (hs.self.symm.trans (hq ▸ he)) hb).1
    · exact hids b (h.array q e b ((hs.other hq).symm.trans he) hb)
  · by_cases hq : q = id <;> by_cases hq' : q' = id
    · exact hq.trans hq'.symm
    · exact absurd hb' ((hpins e b (hs.self.symm.trans (hq ▸ he)) hb).2 q' e' hq'
        ((hs.other hq').symm.trans he'))
    · exact absurd hb ((hpins e' b (hs.self.symm.trans (hq' ▸ he')) hb').2 q e hq
        ((hs.other hq).symm.trans he))
    · exact h.sole q q' e e' b ((hs.other hq).symm.trans he) ((hs.other hq').symm.trans he') hb hb'

end Wired

namespace Stores

variable {o : Option Entry}

/-- A net lists what it listed if neither it nor its array is changed. -/
theorem netPins_other (hs : Stores id o new r r') (hq : q ≠ id)
    (ha : ∀ e, r.stored? q = some e → e.pins? ≠ some id) : r'.netPins q = r.netPins q := by
  rw [netPins, netPins, hs.other hq]
  cases hb : ((r.stored? q).filter (·.kind = .net)).bind Entry.pins? with
  | none => rfl
  | some b =>
    obtain ⟨e, he, hb⟩ := Option.bind_eq_some_iff.1 hb
    have hne : b ≠ id := by
      rintro rfl
      exact ha e (Option.filter_eq_some_iff.1 he).1 hb
    rw [itemsAt, itemsAt, Option.bind_some, Option.bind_some, hs.other hne]

theorem samePins (hs : Stores id o new r r') (hold : ∀ y, r.stored? id = some y → y.kind ≠ .pin)
    (hnew : ∀ y, o = some y → y.kind ≠ .pin) : SamePins r r' := by
  intro p e hk
  by_cases hp : p = id
  · rw [hp, hs.self]
    exact ⟨fun he => absurd hk (hnew e he), fun he => absurd hk (hold e he)⟩
  · rw [hs.other hp]

end Stores

/-! ## Effects -/

/-- From `r` to `r'` the nets come to list the pins of the wires in `grown`, after those they
listed, and the pins to name the nets of the wires in `named`. -/
structure Effect (grown named : List Wire) (r r' : Registry) : Prop where
  wired : r'.Wired
  evolves : Evolves r r'
  list : ∀ n, r'.netPins n = r.netPins n ++ pinsAt n grown
  name : ∀ p, ¬ r'.Stale p → r'.pinNet p = (lastNet p named).or (r.pinNet p)

namespace Effect

variable {grown grown' named named' : List Wire}

theorem refl (h : r.Wired) : Effect [] [] r r where
  wired := h
  evolves := Evolves.refl h.sound
  list _ := (List.append_nil _).symm
  name _ _ := rfl

theorem trans (hr : r.Sound) (h : Effect grown named r r') (h' : Effect grown' named' r' r'') :
    Effect (grown ++ grown') (named ++ named') r r'' where
  wired := h'.wired
  evolves := h.evolves.trans hr h'.evolves
  list n := by rw [h'.list, h.list, pinsAt_append, List.append_assoc]
  name p hp := by
    rw [h'.name p hp, h.name p fun hs => hp (hs.mono h'.evolves), lastNet_append, Option.or_assoc]

/-- What lists no pins is put in the place of a pin or of nothing. -/
theorem of_stores (h : r.Wired) {o : Option Entry} (hs : Stores id o new r r')
    (hold : ∀ y, r.stored? id = some y → y.kind = .pin) (hpins : ∀ y, o = some y → y.pins? = none)
    (hnamed : ∀ w ∈ named, w.pin = id)
    (hnet : ¬ r'.Stale id → o.bind Entry.net? = (lastNet id named).or (r.pinNet id)) :
    Effect [] named r r' where
  wired := h.stores hs (fun y hy hn => absurd (hold y hy) hn) fun y b hy hb => by
    rw [hpins y hy] at hb
    contradiction
  evolves := hs.evolves
  list n := by
    rw [show pinsAt n [] = [] from rfl, List.append_nil]
    by_cases hn : n = id
    · subst hn
      rw [netPins_eq_nil fun y hy hk => ?_, netPins_eq_nil fun y hy hk => ?_]
      · rw [hold y hy] at hk
        contradiction
      · exact hpins y (hs.self.symm.trans hy)
    · refine hs.netPins_other hn fun y hy => h.pins?_ne (fun x hx => ?_) hy
      cases hold _ hx
  name p hp := by
    by_cases hpid : p = id
    · subst hpid
      rw [pinNet, hs.self, hnet hp]
    · rw [lastNet_eq_none fun w hw hwp => hpid (hwp.symm.trans (hnamed w hw)), Option.none_or,
        pinNet, hs.other hpid, pinNet]

/-- A record that was not there before, and lists and names nothing. -/
theorem of_fresh (h : r.Wired) (hs : Stores id (some e) new r r') (hfresh : ¬ r.Spent id)
    (hpins : e.pins? = none) (hnet : e.net? = none) : Effect [] [] r r' := by
  have hnone := h.sound.stored?_of_fresh hfresh
  refine of_stores h hs (fun y hy => ?_) (fun y hy => ?_) (fun w hw => by contradiction) fun _ => ?_
  · rw [hnone] at hy
    contradiction
  · cases hy
    exact hpins
  · rw [Option.bind_some, hnet, pinNet, hnone]
    rfl

/-- A pin names another net. -/
theorem of_naming (h : r.Wired) {x y : Record Pin}
    (hx : r.stored? id = some { kind := .pin, record := x })
    (hs : Stores id (some { kind := .pin, record := y }) new r r') {n : ObjectId}
    (hn : y.body.net = some n) : Effect [] [⟨n, id⟩] r r' := by
  refine of_stores h hs (fun z hz => ?_) (fun z hz => ?_) (fun w hw => ?_) fun _ => ?_
  · cases hx.symm.trans hz
    rfl
  · cases hz
    rfl
  · rw [List.mem_singleton.1 hw]
  · rw [lastNet_singleton]
    exact hn

/-- A pin goes. -/
theorem of_discard (h : r.Wired) (hs : Stores id none new r r')
    (hold : ∀ y, r.stored? id = some y → y.kind = .pin) : Effect [] [] r r' := by
  refine of_stores h hs hold (fun y hy => by contradiction) (fun w hw => by contradiction)
    fun hp => ?_
  have hdead : ¬ r'.Live id := by
    rw [← stored?_eq_none_iff, hs.self]
  have hfresh : ¬ r.Spent id := fun hsp => hp ((hsp.mono hs.evolves).stale_of_not_live hdead)
  rw [pinNet, h.sound.stored?_of_fresh hfresh]
  rfl

/-- A handle is listed at the end of the array of the record `q`, which is the one it had or a new
one. -/
theorem of_listing (h : r.Wired) (he : r.stored? q = some e) (hpins : e'.pins? = some a)
    (hkind : e'.kind = e.kind) {x : Record (GrowArray ObjectId)}
    (ha : Stores a (some { kind := .ids, record := x }) [] r r₁) (hq : Stores q (some e') [] r₁ r')
    (harray : e.pins? = none ∧ ¬ r.Spent a ∨ e.pins? = some a)
    (hx : x.body.toList = r.itemsAt e.pins? ++ [v]) :
    Effect (if e.kind = .net then [⟨q, v⟩] else []) [] r r' ∧ SamePins r r' := by
  have hbefore (y : Entry) (hy : r.stored? a = some y) : y.kind = .ids := by
    rcases harray with ⟨_, hfresh⟩ | hsome
    · exact absurd (h.sound.spent_of_stored? hy) hfresh
    · obtain ⟨z, hz⟩ := h.array q e a he hsome
      cases hz.symm.trans hy
      rfl
  have hsole (j : ObjectId) (y : Entry) (hy : r.stored? j = some y) (hya : y.pins? = some a) :
      j = q := by
    rcases harray with ⟨_, hfresh⟩ | hsome
    · obtain ⟨z, hz⟩ := h.array j y a hy hya
      exact absurd (h.sound.spent_of_stored? hz) hfresh
    · exact h.sole j q y e a hy he hya hsome
  have hlists : e.kind = .inst ∨ e.kind = .net := hkind ▸ Entry.kind_of_pins? hpins
  have hids : e.kind ≠ .ids := by rcases hlists with hk | hk <;> simp [hk]
  have hpin : e.kind ≠ .pin := by rcases hlists with hk | hk <;> simp [hk]
  have hne : q ≠ a := by
    rintro rfl
    exact hids (hbefore e he)
  have he₁ : r₁.stored? q = some e := (ha.other hne).trans he
  have hw₁ : r₁.Wired := by
    refine h.stores ha (fun y hy _ => ⟨_, rfl, (hbefore y hy).symm⟩) fun y b hy hb => ?_
    cases hy
    contradiction
  have hsame : SamePins r r' :=
    (ha.samePins (fun y hy => by simp [hbefore y hy]) fun y hy => by cases hy; simp).trans
      (hq.samePins (fun y hy => by cases he₁.symm.trans hy; exact hpin) fun y hy => by
        cases hy; exact hkind ▸ hpin)
  refine ⟨⟨?_, ha.evolves.trans h.sound hq.evolves, fun n => ?_, fun p _ => ?_⟩, hsame⟩
  · refine hw₁.stores hq (fun y hy _ => ?_) fun y b hy hb => ?_
    · cases he₁.symm.trans hy
      exact ⟨e', rfl, hkind⟩
    · cases hy
      cases hpins.symm.trans hb
      refine ⟨⟨x, ha.self⟩, fun j z hj hz hza => hj ?_⟩
      by_cases hja : j = a
      · cases ha.self.symm.trans (hja ▸ hz)
        contradiction
      · exact hsole j z ((ha.other hja).symm.trans hz) hza
  · by_cases hn : n = q
    · subst hn
      have hitems : r'.itemsAt (some a) = x.body.toList :=
        itemsAt_some ((hq.other hne.symm).trans ha.self)
      by_cases hk : e.kind = .net
      · rw [netPins_of_net hq.self (hkind.trans hk), netPins_of_net he hk, hpins, hitems, hx,
          if_pos hk, pinsAt_singleton]
      · rw [netPins_eq_nil fun y hy hyk => ?_, netPins_eq_nil fun y hy hyk => ?_, if_neg hk]
        · rfl
        · cases he.symm.trans hy
          exact absurd hyk hk
        · cases hq.self.symm.trans hy
          exact absurd (hkind.symm.trans hyk) hk
    · have hnil : pinsAt n (if e.kind = .net then [⟨q, v⟩] else []) = [] := by
        split <;> simp [pinsAt, Ne.symm hn]
      rw [hnil, List.append_nil, hq.netPins_other hn fun y hy hyq => ?_]
      · by_cases hna : n = a
        · subst hna
          rw [netPins_eq_nil fun y hy hk => ?_, netPins_eq_nil fun y hy hk => ?_]
          · rw [hbefore y hy] at hk
            contradiction
          · cases ha.self.symm.trans hy
            rfl
        · exact ha.netPins_other hna fun y hy hya => hn (hsole n y hy hya)
      · exact hw₁.pins?_ne (fun z hz => by cases he₁.symm.trans hz; exact hids rfl) hy hyq
  · rw [hsame.pinNet, show lastNet p [] = none from rfl, Option.none_or]

end Effect
end Registry

namespace Netlist

open Database Registry

variable {db db' : Database} {net pin : ObjectId}

/-! ## Calls -/

/-- The calls by which a netlist is made, and by which pins are destroyed. -/
inductive Call where
  | addInst (owner : ObjectId) (x y : Int32)
  | addPin (inst : ObjectId)
  | addNet (owner : ObjectId)
  | connect (net pin : ObjectId)
  | destroy (pin : ObjectId)

/-- A record of the kind is found under the handle. -/
def finds (db : Database) (k : RecordKind) (id : ObjectId) : Bool :=
  (db.resolve k id).toOption.join.isSome

/-- The pins that a net lists. -/
def pinsOf (db : Database) (net : ObjectId) : Except Fault (List ObjectId) := do
  let some n ← db.resolve .net net | return []
  let some array := n.body.pins | return []
  let some l ← db.idArray array | return []
  return l.body.toList

/-- The net that a pin names. -/
def netOf (db : Database) (pin : ObjectId) : Except Fault (Option ObjectId) := do
  let some p ← db.resolve .pin pin | return none
  return p.body.net

namespace Call

def perform : Call → Edit Unit
  | addInst owner x y => discard (Netlist.addInst owner x y)
  | addPin inst => discard (Netlist.addPin inst)
  | addNet owner => discard (Netlist.addNet owner)
  | connect net pin => Netlist.connect net pin
  | destroy pin => discard (Database.destroy pin)

/-- The connection that a call makes. -/
def made (db : Database) : Call → List Wire
  | connect net pin => if (answer (Netlist.connect net pin) db).isOk then [⟨net, pin⟩] else []
  | _ => []

/-- The connection that a call makes, or fails to make because there is no such pin. -/
def tried (db : Database) : Call → List Wire
  | connect net pin =>
    if (answer (Netlist.connect net pin) db).isOk ∨ ¬ finds db .pin pin then [⟨net, pin⟩] else []
  | _ => []

def destroyed? : Call → Option ObjectId
  | destroy pin => some pin
  | _ => none

end Call

def run (calls : List Call) (db : Database) : Database :=
  calls.foldl (fun db c => after c.perform db) db

/-- The connections that the calls of a run make. -/
def made : Database → List Call → List Wire
  | _, [] => []
  | db, c :: calls => c.made db ++ made (after c.perform db) calls

/-- The connections that the calls of a run make, or fail to make because there is no such pin. -/
def tried : Database → List Call → List Wire
  | _, [] => []
  | db, c :: calls => c.tried db ++ tried (after c.perform db) calls

/-- What is destroyed in a run is a pin, if it is live. -/
def DestroysPins : Database → List Call → Prop
  | _, [] => True
  | db, c :: calls =>
    (∀ id ∈ c.destroyed?, ∀ e ∈ db.registry.stored? id, e.kind = .pin) ∧
      DestroysPins (after c.perform db) calls

instance decidableDestroysPins : (db : Database) → (calls : List Call) →
    Decidable (DestroysPins db calls)
  | _, [] => .isTrue trivial
  | db, c :: calls =>
    have := decidableDestroysPins (after c.perform db) calls
    inferInstanceAs (Decidable (_ ∧ _))

/-! ## The effect of a call -/

/-- A record is created and filled in. -/
theorem creating (h : db.registry.Wired) (k : RecordKind) (t : ObjectType) (owner : ObjectId)
    {f : k.Body → k.Body} (hpins : k.pins? (f default) = none) (hnet : k.net? (f default) = none) :
    (∃ e, create k t owner db = .error e db) ∨
      ∃ id r r' y, create k t owner db = .ok id { db with registry := r } ∧
        (updateBody k id f : Edit _) { db with registry := r } =
          .ok (some y) { db with registry := r' } ∧
        Effect [] [] db.registry r' := by
  refine (create_stores h.sound k t owner).imp_right ?_
  rintro ⟨id, index, r, hr, hfresh, hs⟩
  have hsound : ({ db with registry := r } : Database).registry.Sound := hs.evolves.sound
  obtain ⟨y, r', hr', hs'⟩ := update_stores (ε := DbError) (k := k) hsound hs.self
    (f := fun x => { x with body := f x.body }) fun _ => rfl
  exact ⟨id, r, r', y, hr, hr', Effect.of_fresh h (hs.trans h.sound hs') hfresh hpins hnet⟩

/-- A handle is listed in the array of a record, which the record notes. -/
theorem listing (h : db.registry.Wired) {k : RecordKind} {q : ObjectId} {x : Record k.Body}
    (hx : db.registry.stored? q = some { kind := k, record := x })
    (note : ObjectId → k.Body → k.Body) (hnote : ∀ a b, k.pins? (note a b) = some a)
    (v : ObjectId) :
    (∃ e, appendId (k.pins? x.body) q v db = .error e db) ∨
      ∃ a r r' y, appendId (k.pins? x.body) q v db = .ok a { db with registry := r } ∧
        (updateBody k q (note a) : Edit _) { db with registry := r } =
          .ok (some y) { db with registry := r' } ∧
        Effect (if k = .net then [⟨q, v⟩] else []) [] db.registry r' ∧
        SamePins db.registry r' := by
  refine (appendId_cases h.sound (k.pins? x.body) q v).imp_right ?_
  rintro ⟨a, l, r, hr, hs, harray⟩
  have hne : q ≠ a := by
    rintro rfl
    have hk : k = .ids := by
      rcases harray with ⟨_, hfresh, _⟩ | ⟨_, y, hy, _⟩
      · exact absurd (h.sound.spent_of_stored? hx) hfresh
      · cases hx.symm.trans hy
        rfl
    subst hk
    cases hnote q x.body
  have hsound : ({ db with registry := r } : Database).registry.Sound := hs.evolves.sound
  obtain ⟨y, r', hr', hs'⟩ := update_stores (ε := DbError) (k := k) hsound
    ((hs.other hne).trans hx) (f := fun x => { x with body := note a x.body }) fun _ => rfl
  have hpins : Entry.pins? { kind := k, record := { x with body := note a x.body } } = some a :=
    hnote a x.body
  refine ⟨a, r, r', y, hr, hr', Effect.of_listing h hx hpins rfl hs hs' ?_ ?_⟩
  · exact harray.imp (fun hn => ⟨hn.1, hn.2.1⟩) fun hs => hs.1
  · rcases harray with ⟨hnone, _, hl⟩ | ⟨hsome, y, hy, hl⟩
    · rw [hl, Entry.pins?, hnone]
      rfl
    · rw [hl, Entry.pins?, hsome, itemsAt_some hy]

theorem effect_addInst (h : db.registry.Wired) (owner : ObjectId) (x y : Int32) :
    Effect [] [] db.registry (after (addInst owner x y) db).registry := by
  rcases creating h .inst .inst owner (f := fun i : Inst => { i with x, y }) rfl rfl with
    ⟨e, he⟩ | ⟨id, r, r', _, hr, hr', heff⟩
  · have hresult : addInst owner x y db = .error e db := bind_error he
    rw [after_error hresult]
    exact Effect.refl h
  · have hresult : addInst owner x y db = .ok id { db with registry := r' } :=
      (bind_ok hr).trans (bind_ok (discard_ok hr'))
    rw [after_ok hresult]
    exact heff

theorem effect_addNet (h : db.registry.Wired) (owner : ObjectId) :
    Effect [] [] db.registry (after (addNet owner) db).registry := by
  rcases create_stores h.sound .net .net owner with ⟨e, he⟩ | ⟨id, index, r, hr, hfresh, hs⟩
  · rw [addNet, after_error he]
    exact Effect.refl h
  · rw [addNet, after_ok hr]
    exact Effect.of_fresh h hs hfresh rfl rfl

theorem effect_addPin (h : db.registry.Wired) (inst : ObjectId) :
    Effect [] [] db.registry (after (addPin inst) db).registry := by
  rcases creating h .pin .pin inst (f := fun p : Pin => { p with inst := some inst }) rfl rfl with
    ⟨e, he⟩ | ⟨pin, r, r', _, hr, hr', heff⟩
  · have hresult : addPin inst db = .error e db := bind_error he
    rw [after_error hresult]
    exact Effect.refl h
  have hwired : ({ db with registry := r' } : Database).registry.Wired := heff.wired
  rcases bind_found_cases hwired.sound .inst inst fun i => do
      let pins ← appendId (RecordKind.inst.pins? i.body) inst pin
      discard <| updateBody .inst inst fun i => { (i : Inst) with pins := some pins }
      return pin with ⟨e, he⟩ | ⟨i, hi, hrun⟩
  · have hresult : addPin inst db = .error e { db with registry := r' } :=
      (bind_ok hr).trans ((bind_ok (discard_ok hr')).trans he)
    rw [after_error hresult]
    exact heff
  rcases listing hwired hi (fun a (i : Inst) => { i with pins := some a }) (fun _ _ => rfl) pin with
    ⟨e, he⟩ | ⟨a, r₁, r₂, _, ha, hr₂, hlisted, _⟩
  · have hresult : addPin inst db = .error e { db with registry := r' } :=
      (bind_ok hr).trans ((bind_ok (discard_ok hr')).trans (hrun.trans (bind_error he)))
    rw [after_error hresult]
    exact heff
  · have hresult : addPin inst db = .ok pin { db with registry := r₂ } :=
      (bind_ok hr).trans ((bind_ok (discard_ok hr')).trans
        (hrun.trans ((bind_ok ha).trans (bind_ok (discard_ok hr₂)))))
    rw [after_ok hresult]
    exact heff.trans h.sound hlisted

theorem effect_destroy (h : db.registry.Wired)
    (hpin : ∀ e ∈ db.registry.stored? pin, e.kind = .pin) :
    Effect [] [] db.registry (after (destroy pin : Edit Bool) db).registry := by
  have howner : db.registry.isScopeOwner pin = false := by
    by_contra ho
    obtain ⟨e, he, hk⟩ := h.head pin (Bool.eq_true_of_not_eq_false ho)
    exact hk (hpin e he)
  obtain ⟨b, r, hr, _, ht⟩ := destroy_of_not_owner (ε := Failure DbError) h.sound howner
  rw [after_ok hr]
  exact Effect.of_discard h ht.stores_of_clear hpin

/-- How connecting can end: nothing is changed; or the pin is listed and then is found missing; or
the pin is connected. -/
inductive Connecting (net pin : ObjectId) (db : Database) : Prop
  | refused {e : Failure DbError} (result : connect net pin db = .error e db)
  | missing {e : Failure DbError} {r : Registry}
      (result : connect net pin db = .error e { db with registry := r })
      (found : ∃ x, db.registry.stored? net = some { kind := .net, record := x })
      (gone : ∀ x, db.registry.stored? pin ≠ some { kind := .pin, record := x })
      (effect : Effect [⟨net, pin⟩] [] db.registry r) (same : SamePins db.registry r)
  | connected {r : Registry} (result : connect net pin db = .ok ⟨⟩ { db with registry := r })
      (effect : Effect [⟨net, pin⟩] [⟨net, pin⟩] db.registry r)

theorem connecting (h : db.registry.Wired) (net pin : ObjectId) : Connecting net pin db := by
  rcases bind_found_cases h.sound .net net fun n => do
      let pins ← appendId (RecordKind.net.pins? n.body) net pin
      discard <| Edit.found net
        (← updateBody .net net fun n => { (n : Net) with pins := some pins })
      discard <| Edit.found pin
        (← updateBody .pin pin fun p => { (p : Pin) with net := some net }) with
    ⟨e, he⟩ | ⟨n, hn, hrun⟩
  · exact .refused he
  rcases listing h hn (fun a (n : Net) => { n with pins := some a }) (fun _ _ => rfl) pin with
    ⟨e, he⟩ | ⟨a, r, r', _, ha, hr', hlisted, hsame⟩
  · exact .refused (hrun.trans (bind_error he))
  have hrest := hrun.trans ((bind_ok ha).trans ((bind_ok hr').trans (bind_ok (discard_ok rfl))))
  have hsound : ({ db with registry := r' } : Database).registry.Sound := hlisted.wired.sound
  by_cases hp : ∃ x, r'.stored? pin = some { kind := .pin, record := x }
  · obtain ⟨x, hx⟩ := hp
    obtain ⟨y, r'', hr'', hs⟩ := update_stores (ε := DbError) (k := .pin) hsound hx
      (f := fun x => { x with body := { x.body with net := some net } }) fun _ => rfl
    exact .connected (hrest.trans (bind_ok hr''))
      (hlisted.trans h.sound (Effect.of_naming hlisted.wired hx hs rfl))
  · have hgone (x : Record Pin) :
        db.registry.stored? pin ≠ some { kind := .pin, record := x } :=
      fun hx => hp ⟨x, (hsame pin _ rfl).2 hx⟩
    rcases update_of_not_stored (ε := DbError) hsound (fun x hx => hp ⟨x, hx⟩)
      fun x : Record Pin => { x with body := { x.body with net := some net } } with ⟨e, he⟩ | he
    · exact .missing (hrest.trans (bind_error he)) ⟨n, hn⟩ hgone hlisted hsame
    · exact .missing (hrest.trans (bind_ok he)) ⟨n, hn⟩ hgone hlisted hsame

theorem finds_iff (h : db.registry.Sound) {k : RecordKind} {id : ObjectId} :
    finds db k id = true ↔ ∃ x, db.registry.stored? id = some { kind := k, record := x } := by
  rw [finds]
  constructor
  · intro hf
    cases hr : db.resolve k id with
    | error f => simp [hr, Except.toOption] at hf
    | ok x =>
      cases x with
      | none => simp [hr, Except.toOption] at hf
      | some x => exact ⟨x, (resolve_eq_some_iff_stored? h).1 hr⟩
  · rintro ⟨x, hx⟩
    simp [(resolve_eq_some_iff_stored? h).2 hx, Except.toOption]

/-- What a call does lies between the connections it makes and those it tries to make. -/
theorem effect_perform (h : db.registry.Wired) (c : Call)
    (hpins : ∀ id ∈ c.destroyed?, ∀ e ∈ db.registry.stored? id, e.kind = .pin) :
    ∃ grown, (c.made db).Sublist grown ∧ grown.Sublist (c.tried db) ∧
      Effect grown (c.made db) db.registry (after c.perform db).registry := by
  cases c with
  | addInst owner x y =>
    rw [Call.perform, after_discard]
    exact ⟨[], List.Sublist.refl _, List.Sublist.refl _, effect_addInst h owner x y⟩
  | addPin inst =>
    rw [Call.perform, after_discard]
    exact ⟨[], List.Sublist.refl _, List.Sublist.refl _, effect_addPin h inst⟩
  | addNet owner =>
    rw [Call.perform, after_discard]
    exact ⟨[], List.Sublist.refl _, List.Sublist.refl _, effect_addNet h owner⟩
  | destroy pin =>
    rw [Call.perform, after_discard]
    exact ⟨[], List.Sublist.refl _, List.Sublist.refl _, effect_destroy h (hpins pin rfl)⟩
  | connect net pin =>
    rw [Call.perform, Call.made, Call.tried]
    cases connecting h net pin with
    | refused result =>
      rw [after_error result, answer_error result]
      exact ⟨[], List.Sublist.refl _, List.nil_sublist _, Effect.refl h⟩
    | missing result _ gone effect _ =>
      have hf : ¬ finds db .pin pin = true := fun hf =>
        let ⟨x, hx⟩ := (finds_iff h.sound).1 hf
        gone x hx
      rw [after_error result, answer_error result, if_pos (Or.inr hf)]
      exact ⟨_, List.nil_sublist _, List.Sublist.refl _, effect⟩
    | connected result effect =>
      rw [after_ok result, answer_ok result]
      exact ⟨_, List.Sublist.refl _, List.Sublist.refl _, effect⟩

theorem effect_run (h : db.registry.Wired) {calls : List Call} (hpins : DestroysPins db calls) :
    ∃ grown, (made db calls).Sublist grown ∧ grown.Sublist (tried db calls) ∧
      Effect grown (made db calls) db.registry (run calls db).registry := by
  induction calls generalizing db with
  | nil => exact ⟨[], List.Sublist.refl _, List.Sublist.refl _, Effect.refl h⟩
  | cons c calls ih =>
    obtain ⟨grown, hmade, htried, heff⟩ := effect_perform h c hpins.1
    obtain ⟨grown', hmade', htried', heff'⟩ := ih heff.wired hpins.2
    exact ⟨grown ++ grown', hmade.append hmade', htried.append htried', heff.trans h.sound heff'⟩

/-! ## What the two sides say -/

/-- There are no instances, nets or pins. -/
def Unwired (db : Database) : Prop :=
  ∀ id, ∀ k ∈ [RecordKind.inst, .net, .pin], finds db k id = false

theorem unwired_of_liveIds (hc : db.registry.Counted) (ho : db.registry.Orderly)
    (h : ∀ id ∈ db.registry.liveIds, ∀ k ∈ [RecordKind.inst, .net, .pin], finds db k id = false) :
    Unwired db := by
  intro id k hk
  by_contra hf
  obtain ⟨x, hx⟩ := (finds_iff ho.sound).1 (Bool.eq_true_of_not_eq_false hf)
  have hl := (isLive_iff ho.sound id).2 (isSome_stored?_iff.1 (Option.isSome_of_eq_some hx))
  exact hf (h id ((mem_liveIds_iff hc ho id).2 hl) k hk)

theorem wired_of_unwired (ha : db.Anchored) (h : Unwired db) : db.registry.Wired := by
  have hk (k : RecordKind) (hk : k ∈ [RecordKind.inst, .net, .pin]) (id : ObjectId) (e : Entry)
      (he : db.registry.stored? id = some e) : e.kind ≠ k := by
    rintro rfl
    have hf := (finds_iff ha.sound).2 ⟨e.record, he⟩
    rw [h id e.kind hk] at hf
    contradiction
  have hpins (q : ObjectId) (e : Entry) (a : ObjectId) (he : db.registry.stored? q = some e) :
      e.pins? ≠ some a := fun hp =>
    (Entry.kind_of_pins? hp).elim (hk .inst (by simp) q e he) (hk .net (by simp) q e he)
  refine ⟨ha.sound, fun o ho => ?_, fun q e a he hp => absurd hp (hpins q e a he),
    fun q _ e _ a he _ hp _ => absurd hp (hpins q e a he)⟩
  obtain ⟨e, he⟩ := Option.isSome_iff_exists.1 (isSome_stored?_iff.2 (ha.live_of_isScopeOwner ho))
  exact ⟨e, he, hk .pin (by simp) o e he⟩

theorem pinsOf_eq (h : db.registry.Wired) (hn : finds db .net net = true) :
    pinsOf db net = .ok (db.registry.netPins net) := by
  obtain ⟨x, hx⟩ := (finds_iff h.sound).1 hn
  have hr := (resolve_eq_some_iff_stored? h.sound).2 hx
  rw [netPins_of_net hx rfl]
  cases hp : x.body.pins with
  | none =>
    rw [Entry.pins?, show RecordKind.net.pins? x.body = none from hp]
    simp only [pinsOf, hr, hp, bind, Except.bind, pure, Except.pure]
    rfl
  | some a =>
    obtain ⟨l, hl⟩ := h.array net _ a hx hp
    rw [Entry.pins?, show RecordKind.net.pins? x.body = some a from hp, itemsAt_some hl]
    simp only [pinsOf, hr, hp, idArray, (resolve_eq_some_iff_stored? h.sound).2 hl, bind,
      Except.bind, pure, Except.pure]

theorem netOf_eq (h : db.registry.Wired) (hp : finds db .pin pin = true) :
    netOf db pin = .ok (db.registry.pinNet pin) := by
  obtain ⟨x, hx⟩ := (finds_iff h.sound).1 hp
  rw [pinNet, hx]
  simp only [netOf, (resolve_eq_some_iff_stored? h.sound).2 hx, bind, Except.bind, pure,
    Except.pure]
  rfl

/-- The nets list the pins of the connections in `l`, each in the order of the connections, and
perhaps some of `l'`; the pins name the nets of their last connections in `l`. -/
structure Tells (l l' : List Wire) (db : Database) : Prop where
  lists : ∀ net, finds db .net net = true → ∃ pins, pinsOf db net = .ok pins ∧
    (pinsAt net l).Sublist pins ∧ pins.Sublist (pinsAt net l')
  names : ∀ pin, finds db .pin pin = true → netOf db pin = .ok (lastNet pin l)
  /-- The net that a pin names lists it.  If one net only was meant to list it, no other does. -/
  agree : ∀ net pin, finds db .net net = true → finds db .pin pin = true →
    ∃ pins, pinsOf db net = .ok pins ∧ (netOf db pin = .ok (some net) → pin ∈ pins) ∧
      ∀ n, (∀ w ∈ l', w.pin = pin → w.net = n ∧ w ∈ l) →
        (pin ∈ pins ↔ netOf db pin = .ok (some net))
  /-- Where connecting fails no pin is changed, and nothing at all if the pin is live. -/
  refused : ∀ net pin e db', connect net pin db = .error e db' →
    (∀ p x, db'.resolve .pin p = .ok (some x) ↔ db.resolve .pin p = .ok (some x)) ∧
      (finds db .pin pin = true ∨ finds db .net net = false → db' = db)

theorem refused_of_wired (h : db.registry.Wired) {e : Failure DbError}
    (hr : connect net pin db = .error e db') :
    (∀ p x, db'.resolve .pin p = .ok (some x) ↔ db.resolve .pin p = .ok (some x)) ∧
      (finds db .pin pin = true ∨ finds db .net net = false → db' = db) := by
  cases connecting h net pin with
  | refused result =>
    cases result.symm.trans hr
    exact ⟨fun _ _ => Iff.rfl, fun _ => rfl⟩
  | @missing e r result found gone effect same =>
    cases result.symm.trans hr
    have hsound : ({ db with registry := r } : Database).registry.Sound := effect.wired.sound
    refine ⟨fun p x => ?_, fun hf => ?_⟩
    · rw [resolve_eq_some_iff_stored? h.sound, resolve_eq_some_iff_stored? hsound]
      exact same p _ rfl
    · rcases hf with hf | hf
      · obtain ⟨x, hx⟩ := (finds_iff h.sound).1 hf
        exact absurd hx (gone x)
      · rw [(finds_iff h.sound).2 found] at hf
        contradiction
  | connected result _ => cases result.symm.trans hr

theorem tells_run {start : Database} (ha : start.Anchored) (h : Unwired start) {calls : List Call}
    (hpins : DestroysPins start calls) :
    Tells (made start calls) (tried start calls) (run calls start) := by
  have hwired := wired_of_unwired ha h
  obtain ⟨grown, hmade, htried, heff⟩ := effect_run hwired hpins
  have hlist (net : ObjectId) : (run calls start).registry.netPins net = pinsAt net grown := by
    rw [heff.list, netPins_eq_nil fun e he hk => ?_, List.nil_append]
    have hf := (finds_iff ha.sound).2 ⟨e.record, he⟩
    rw [hk, h net .net (by simp)] at hf
    contradiction
  have hname (pin : ObjectId) (hp : finds (run calls start) .pin pin = true) :
      (run calls start).registry.pinNet pin = lastNet pin (made start calls) := by
    obtain ⟨x, hx⟩ := (finds_iff heff.wired.sound).1 hp
    have hlive := isSome_stored?_iff.1 (Option.isSome_of_eq_some hx)
    have hnone : start.registry.pinNet pin = none := by
      rw [pinNet, Option.bind_eq_none_iff]
      intro e he
      refine Entry.net?_eq_none fun hk => ?_
      have hf := (finds_iff ha.sound).2 ⟨e.record, he⟩
      rw [hk, h pin .pin (by simp)] at hf
      contradiction
    rw [heff.name pin fun hs => hs.not_live hlive, hnone, Option.or_none]
  refine ⟨fun net hn => ?_, fun pin hp => ?_, fun net pin hn hp => ?_, fun net pin e db' hr => ?_⟩
  · exact ⟨_, pinsOf_eq heff.wired hn, hlist net ▸ pinsAt_sublist hmade,
      hlist net ▸ pinsAt_sublist htried⟩
  · rw [netOf_eq heff.wired hp, hname pin hp]
  · rw [netOf_eq heff.wired hp, hname pin hp, Except.ok.injEq]
    have hagree (hnet : lastNet pin (made start calls) = some net) :
        pin ∈ (run calls start).registry.netPins net := by
      rw [hlist]
      exact mem_pinsAt.2 (hmade.subset (mem_of_lastNet hnet))
    refine ⟨_, pinsOf_eq heff.wired hn, hagree, fun n hone => ⟨fun hmem => ?_, hagree⟩⟩
    rw [hlist] at hmem
    obtain ⟨hn, hwire⟩ := hone _ (htried.subset (mem_pinsAt.1 hmem)) rfl
    obtain ⟨m, hm⟩ := exists_lastNet hwire
    obtain ⟨hmn, _⟩ := hone _ ((hmade.trans htried).subset (mem_of_lastNet hm)) rfl
    rw [hm, show m = net from hmn.trans hn.symm]
  · exact refused_of_wired heff.wired hr

end Netlist

/-- Let scopes be opened, in any way that writes no header by hand, and let there be no instances,
nets or pins yet.  After any calls that make instances, nets and pins, connect pins to nets and
destroy pins, whether they succeed or fail, a live net lists the pins that were connected to it,
and besides them none but those that connecting found missing; and a live pin names the net it was
connected to last.  So the net that a pin names lists it, and the two sides agree on a pin that was
connected to no more than one net.  Where connecting fails no pin is changed, and neither is the
list of the net if the pin is live. -/
theorem connections_two_sided {c : StoreConfig} {new : Database} (h : Database.new c = .ok new)
    {cmds : List Command} (hheaders : ∀ c ∈ cmds, c.LeavesHeaders)
    (hstart : Netlist.Unwired (Database.run cmds new)) {calls : List Netlist.Call}
    (hpins : Netlist.DestroysPins (Database.run cmds new) calls) :
    Netlist.Tells (Netlist.made (Database.run cmds new) calls)
      (Netlist.tried (Database.run cmds new) calls) (Netlist.run calls (Database.run cmds new)) :=
  Netlist.tells_run (Database.anchored_run h hheaders) hstart hpins

/-- Two pins are connected to a net, of which one is connected to another net and one destroyed. -/
theorem connections_two_sided_moved :
    let top := Session.firstPage 1 .cell 0 0
    let inst := Session.firstPage 1 .inst 0 0
    let first := Session.firstPage 1 .net 0 0
    let second := Session.firstPage 1 .net 0 1
    let kept := Session.firstPage 1 .pin 0 0
    let gone := Session.firstPage 1 .pin 0 1
    let cmds : List Command := [.initTopCell "top"]
    let calls : List Netlist.Call := [.addInst top 0 0, .addNet top, .addNet top, .addPin inst,
      .addPin inst, .connect first kept, .connect first gone, .connect second kept, .destroy gone]
    let start := Database.run cmds (Database.empty {})
    let db := Netlist.run calls start
    Database.new {} = .ok (Database.empty {}) ∧ (∀ c ∈ cmds, c.LeavesHeaders) ∧
      Netlist.Unwired start ∧ Netlist.DestroysPins start calls ∧
      Netlist.Tells [⟨first, kept⟩, ⟨first, gone⟩, ⟨second, kept⟩]
        [⟨first, kept⟩, ⟨first, gone⟩, ⟨second, kept⟩] db ∧
      Netlist.pinsOf db first = .ok [kept, gone] ∧ Netlist.pinsOf db second = .ok [kept] ∧
      Netlist.netOf db kept = .ok (some second) := by
  intro top inst first second kept gone cmds calls start db
  have hheaders : ∀ c ∈ cmds, c.LeavesHeaders := by simp [cmds, Command.LeavesHeaders]
  have hstart : Netlist.Unwired start :=
    Netlist.unwired_of_liveIds
      (Database.counted_run (c := {}) rfl (by simp [cmds, Command.Writes]))
      (Database.shelved_run (c := {}) rfl cmds).orderly (by decide +kernel)
  have hpins : Netlist.DestroysPins start calls := by decide +kernel
  have htells := connections_two_sided (c := {}) rfl hheaders hstart hpins
  have hmade : Netlist.made start calls =
    [⟨first, kept⟩, ⟨first, gone⟩, ⟨second, kept⟩] := by decide +kernel
  have htried : Netlist.tried start calls =
    [⟨first, kept⟩, ⟨first, gone⟩, ⟨second, kept⟩] := by decide +kernel
  rw [hmade, htried] at htells
  exact ⟨rfl, hheaders, hstart, hpins, htells, by decide +kernel, by decide +kernel,
    by decide +kernel⟩

/-- A pin that was connected to a net and then to another is still listed by the first, which it
does not name. -/
theorem connections_disagree_of_reconnected :
    let top := Session.firstPage 1 .cell 0 0
    let inst := Session.firstPage 1 .inst 0 0
    let first := Session.firstPage 1 .net 0 0
    let second := Session.firstPage 1 .net 0 1
    let pin := Session.firstPage 1 .pin 0 0
    let calls : List Netlist.Call := [.addInst top 0 0, .addNet top, .addNet top, .addPin inst,
      .connect first pin, .connect second pin]
    let db := Netlist.run calls (Database.run [.initTopCell "top"] (Database.empty {}))
    Netlist.finds db .net first = true ∧ Netlist.finds db .pin pin = true ∧
      Netlist.pinsOf db first = .ok [pin] ∧ Netlist.netOf db pin = .ok (some second) ∧
      ¬ ∃ pins, Netlist.pinsOf db first = .ok pins ∧
        (pin ∈ pins ↔ Netlist.netOf db pin = .ok (some first)) := by
  intro top inst first second pin calls db
  have hpins : Netlist.pinsOf db first = .ok [pin] := by decide +kernel
  have hnet : Netlist.netOf db pin = .ok (some second) := by decide +kernel
  refine ⟨by decide +kernel, by decide +kernel, hpins, hnet, ?_⟩
  rintro ⟨pins, hp, hagree⟩
  cases hpins.symm.trans hp
  have hfirst := hagree.1 List.mem_cons_self
  rw [hnet] at hfirst
  revert hfirst
  decide +kernel

/-- A net that listed no pins is connected to a pin that was destroyed.  That is refused, and the
net lists the pin.  So the pins a net lists are those of successful calls only if no call found its
pin gone. -/
theorem connect_lists_destroyed_pin :
    let top := Session.firstPage 1 .cell 0 0
    let inst := Session.firstPage 1 .inst 0 0
    let net := Session.firstPage 1 .net 0 0
    let pin := Session.firstPage 1 .pin 0 0
    let start := Database.run [.initTopCell "top"] (Database.empty {})
    let calls : List Netlist.Call := [.addInst top 0 0, .addNet top, .addPin inst, .destroy pin]
    let db := Netlist.run calls start
    let db' := after (Netlist.connect net pin) db
    Netlist.pinsOf db net = .ok [] ∧
      Netlist.connect net pin db = .error (.refused (.notFound pin)) db' ∧
      Netlist.pinsOf db' net = .ok [pin] ∧
      Netlist.made start (calls ++ [.connect net pin]) = [] := by
  intro top inst net pin start calls db db'
  exact ⟨by decide +kernel, eq_error_of_answer (by decide +kernel), by decide +kernel,
    by decide +kernel⟩

end DesignStore
