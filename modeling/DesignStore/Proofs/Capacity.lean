/-
The slots of an arena, accounted for.

Beside an arena a log is kept of the handles it gave out and of those whose records were freed.
The log tells how often a slot was given out, which slots wait for reuse and which are retired
(`times`, `waiting`, `retired`), and what the arena keeps agrees with it (`Books`).  So every slot
that was ever given out is in use, waits or is retired, and the number of slots in use with that
of the retired ones tells whether there is room for another record (`slots_accounted_for`).

A record whose status was cleared by hand stays in use: it is not found any more, so it cannot be
freed.  The number that the arena keeps of the records in use is therefore only bounded by that
of the live ones, and that is what keeps it from falling below zero.
-/
import DesignStore.Proofs.Layout

namespace DesignStore
namespace Arena

/-! ## The log -/

/-- A handle that was given out, or one whose record was freed. -/
inductive Event where
  | issued (k : SlotKey)
  | freed (k : SlotKey)
  deriving DecidableEq

/-- The slots of the handles that were given out, the last first. -/
def issues (log : List Event) : List Place :=
  log.filterMap fun
    | .issued k => some k.place
    | .freed _ => none

/-- How many handles of a slot were given out. -/
def times (p : Place) (log : List Event) : Nat :=
  (issues log).count p

/-- The slots that were given out. -/
def slotsIssued (log : List Event) : List Place :=
  (issues log).dedup

/-- The slots that wait for reuse, the one that was freed last first.  A slot waits when its
record was freed, unless all the 256 handles that it has were given out. -/
def waiting : List Event → List Place
  | [] => []
  | .issued k :: log => (waiting log).erase k.place
  | .freed k :: log => if times k.place log = 256 then waiting log else k.place :: waiting log

/-- The slots that are retired: the record was freed when all their handles were given out. -/
def retiredSlots : List Event → List Place
  | [] => []
  | .issued _ :: log => retiredSlots log
  | .freed k :: log =>
    if times k.place log = 256 then k.place :: retiredSlots log else retiredSlots log

/-- The handles of a slot are given out in the order of their generations, and the record that
is freed is always that of the last one. -/
def Numbered : List Event → Prop
  | [] => True
  | .issued k :: log => times k.place log = k.generation.toNat ∧ Numbered log
  | .freed k :: log => times k.place log = k.generation.toNat + 1 ∧ Numbered log

/-! ## Requests -/

/-- What can be asked of an arena.  A write takes any function, so it can put anything in a live
record and its header. -/
inductive Request (β : Type) where
  | allocate
  | free (k : SlotKey)
  | write (k : SlotKey) (f : Record β → Record β)
  | writeHeader (k : SlotKey) (f : Header → Header)

/-- An arena with the log of what was given out and freed, the last first. -/
structure Logged (β : Type) where
  arena : Arena β
  log : List Event := []

namespace Logged

variable {β : Type} [Inhabited β]

def perform : Request β → Logged β → Logged β
  | .allocate, { arena, log } =>
    match Arena.allocate arena with
    | .ok k arena => { arena, log := .issued k :: log }
    | .error _ arena => { arena, log }
  | .free k, { arena, log } =>
    match (Arena.free k : EStateM Empty (Arena β) Bool) arena with
    | .ok true arena => { arena, log := .freed k :: log }
    | .ok false arena => { arena, log }
  | .write k f, { arena, log } =>
    { arena := after (update k f : EStateM Empty (Arena β) _) arena, log }
  | .writeHeader k f, { arena, log } =>
    { arena := if (arena.get? k).isSome then arena.modifyHeader k f else arena, log }

def run (l : List (Request β)) (a : Logged β) : Logged β :=
  l.foldl (fun a q => perform q a) a

end Logged

variable {β : Type} {a b : Arena β} {p : Place} {k : SlotKey} {log : List Event}

theorem times_issued (k : SlotKey) (p : Place) (log : List Event) :
    times p (.issued k :: log) = times p log + if p = k.place then 1 else 0 := by
  show (k.place :: issues log).count p = _
  rw [List.count_cons]
  by_cases hp : p = k.place
  · rw [if_pos hp, if_pos (beq_iff_eq.2 hp.symm)]
    rfl
  · rw [if_neg hp, if_neg fun e => hp (beq_iff_eq.1 e).symm]
    rfl

theorem times_freed (k : SlotKey) (p : Place) (log : List Event) :
    times p (.freed k :: log) = times p log := rfl

theorem mem_slotsIssued : p ∈ slotsIssued log ↔ 0 < times p log := by
  rw [slotsIssued, List.mem_dedup, times, List.count_pos_iff]

/-! ## The log and the arena -/

/-- What an arena keeps agrees with the log. -/
structure Books (c : PoolConfig) (t : ObjectType) (a : Arena β) (log : List Event) : Prop where
  sound : a.Sound
  packed : a.Packed
  config : a.config = c
  type : a.type = t
  count : a.slots.length = a.live + a.freeList.length + a.retired
  /-- No live record goes uncounted. -/
  live_le : a.records.length ≤ a.live
  times : ∀ p, times p log = (a.slotAt? p).elim 0 (·.generation.toNat + 1)
  waiting : a.freeList = waiting log
  retired : a.retired = (retiredSlots log).length
  nodup : (retiredSlots log).Nodup
  spent : ∀ p ∈ retiredSlots log, ∃ s,
    a.slotAt? p = some s ∧ s.record.isValid = false ∧ s.generation = 255
  numbered : Numbered log

namespace Books

variable {c : PoolConfig} {t : ObjectType}

theorem empty (hc : c.Valid) (scope : ScopeTag) (t : ObjectType) :
    Books c t (Arena.empty scope t c : Arena β) [] where
  sound := sound_empty scope t hc
  packed := packed_empty scope t c
  config := rfl
  type := rfl
  count := rfl
  live_le := Nat.le_refl 0
  times := by simp [Arena.times, issues, slotAt?_eq, Arena.empty]
  waiting := rfl
  retired := rfl
  nodup := List.nodup_nil
  spent := by simp [retiredSlots]
  numbered := trivial

/-- A slot whose record is found is not among the retired ones. -/
theorem not_spent (h : Books c t a log) {s : Slot β} (hs : a.slotAt? p = some s)
    (hv : s.record.isValid = true) : p ∉ retiredSlots log := by
  intro hp
  obtain ⟨s', hs', hn, _⟩ := h.spent p hp
  cases hs.symm.trans hs'
  rw [hv] at hn
  contradiction

theorem write (h : Books c t a log) (hlive : (a.get? k).isSome = true) (f : Record β → Record β) :
    Books c t (a.modifyAt k.place fun s => { s with record := f s.record }) log := by
  obtain ⟨s, hs, _, hv⟩ := slot_of_live hlive
  have hpages := samePages_modifyAt a k.place fun s => { s with record := f s.record }
  refine ⟨h.sound.modifyAt (h.sound.not_mem_freeList hs hv) _, h.packed.congr hpages, h.config,
    h.type, ?_, ?_, fun p => ?_, h.waiting, h.retired, h.nodup, fun p hp => ?_, h.numbered⟩
  · rw [hpages.length_slots]
    exact h.count
  · obtain ⟨l₁, l₂, hl, hmodify⟩ := records_split hs
    have hle := h.live_le
    have hfilter := List.length_filter_le (·.isValid) [f s.record]
    rw [hl, List.filter_cons_of_pos hv] at hle
    rw [hmodify]
    show _ ≤ a.live
    simp only [List.length_append, List.length_cons, List.length_nil, List.filter_nil] at hle hfilter ⊢
    omega
  · rw [h.times, slotAt?_modifyAt]
    split
    · cases a.slotAt? p <;> rfl
    · rfl
  · have hne : p ≠ k.place := fun e => h.not_spent hs hv (e ▸ hp)
    rw [slotAt?_modifyAt, if_neg hne]
    exact h.spent p hp

/-- All handles of the slot of a live record were given out just when it is in its last
generation. -/
theorem times_of_live (h : Books c t a log) (hlive : (a.get? k).isSome = true) :
    Arena.times k.place log = k.generation.toNat + 1 := by
  obtain ⟨s, hs, hg, _⟩ := slot_of_live hlive
  rw [h.times, hs, ← hg]
  rfl

theorem freed (h : Books c t a log) [Inhabited β] {ε : Type} (hlive : (a.get? k).isSome = true) :
    ∃ b, (free k : EStateM ε (Arena β) Bool) a = .ok true b ∧ Books c t b (.freed k :: log) := by
  obtain ⟨b, hb, ht, hpages, hn, hlen, hfree, hretired⟩ := free_of_live (ε := ε) hlive
  obtain ⟨s, hs, hg, hv⟩ := slot_of_live hlive
  have htimes := h.times_of_live hlive
  have hlast : Arena.times k.place log = 256 ↔ k.generation = 255 := by
    rw [htimes, ← UInt8.toNat_inj]
    exact Nat.succ_inj
  have hslot (p : Place) := ht.slot p
  have hcount := h.count
  have hle := h.live_le
  refine ⟨b, hb, ht.sound h.sound, h.packed.congr hpages, hpages.config.trans h.config,
    ht.type.trans h.type, ?_, by omega, fun p => ?_, ?_, ?_, ?_, fun p hp => ?_, htimes, h.numbered⟩
  · rw [hpages.length_slots, hfree, hretired, hn]
    split
    · omega
    · rw [List.length_cons]
      omega
  · rw [times_freed, h.times, hslot]
    split
    · cases a.slotAt? p with
      | none => rfl
      | some s =>
        show _ = (s.touch k.generation Record.clear).generation.toNat + 1
        unfold Slot.touch
        split <;> rfl
    · rfl
  · simp only [Arena.waiting, hlast, hfree, h.waiting]
  · simp only [retiredSlots, hlast, hretired, h.retired]
    split <;> rfl
  · simp only [retiredSlots]
    split
    · exact List.nodup_cons.2 ⟨h.not_spent hs hv, h.nodup⟩
    · exact h.nodup
  · -- the slots retired before were not live, so they are as they were
    have hold (hp : p ∈ retiredSlots log) : ∃ s,
        b.slotAt? p = some s ∧ s.record.isValid = false ∧ s.generation = 255 := by
      obtain ⟨s', hs', hn, hg'⟩ := h.spent p hp
      have hne : p ≠ k.place := by
        rintro rfl
        exact h.not_spent hs hv hp
      exact ⟨s', by rw [hslot, if_neg hne, hs'], hn, hg'⟩
    simp only [retiredSlots] at hp
    split at hp
    · rename_i hall
      rcases List.mem_cons.1 hp with rfl | hp
      · refine ⟨s.touch k.generation Record.clear, by rw [hslot, if_pos rfl, hs]; rfl, ?_⟩
        rw [Slot.touch, if_pos ⟨hg, hv⟩]
        exact ⟨Record.isValid_clear s.record, hg.trans (hlast.1 hall)⟩
      · exact hold hp
    · exact hold hp

theorem times_of_draws (h : Books c t a log) (hd : Draws k a b) :
    Arena.times k.place log = k.generation.toNat := by
  rw [h.times]
  cases hd with
  | again _ hs hg _ =>
    rw [hs, hg]
    rfl
  | first _ _ hs hg _ =>
    rw [hs, hg]
    rfl

theorem issued (h : Books c t a log) [Inhabited β] (hr : allocate a = .ok k b)
    (hp : Places k a b) (hd : Draws k a b) (hpacked : b.Packed) (hconfig : b.config = a.config)
    (hretired : b.retired = a.retired) : Books c t b (.issued k :: log) := by
  obtain ⟨hlive, hlen⟩ := allocate_counts h.sound hr
  have htimes := h.times_of_draws hd
  have hle := h.live_le
  have hcount := h.count
  refine ⟨hp.sound, hpacked, hconfig.trans h.config, hp.type.trans h.type, ?_, by omega,
    fun p => ?_, ?_, hretired.trans h.retired, h.nodup, fun p hspent => ?_, htimes, h.numbered⟩
  · cases hd with
    | again hfree _ _ hpages =>
      rw [hfree, List.length_cons] at hcount
      rw [hpages.length_slots]
      omega
    | first hfree hfree' _ _ hslots =>
      rw [hfree] at hcount
      rw [hfree', hslots]
      omega
  · rw [times_issued, hp.slot]
    by_cases hk : p = k.place
    · rw [if_pos hk, if_pos hk, hk, htimes]
      rfl
    · rw [if_neg hk, if_neg hk, h.times, Nat.add_zero]
  · rw [Arena.waiting, ← h.waiting]
    cases hd with
    | again hfree _ _ _ => rw [hfree, List.erase_cons_head]
    | first hfree hfree' _ _ _ => rw [hfree, hfree', List.erase_nil]
  · -- a slot in its last generation is not given out again
    obtain ⟨s, hs, hn, hg⟩ := h.spent p hspent
    have hne : p ≠ k.place := by
      rintro rfl
      have hlt := (hp.fresh s hs).2
      rw [hg] at hlt
      exact absurd hlt (Nat.not_lt.2 (Nat.le_of_lt_succ k.generation.toNat_lt))
    rw [hp.slot, if_neg hne]
    exact ⟨s, hs, hn, hg⟩

theorem perform (h : Books c t a log) [Inhabited β] (q : Request β) :
    Books c t (Logged.perform q ⟨a, log⟩).arena (Logged.perform q ⟨a, log⟩).log := by
  cases q with
  | allocate =>
    rcases allocate_packed h.sound h.packed with
      ⟨k, b, hr, hp, hd, hpacked, hconfig, _, hretired⟩ | ⟨_, _, hr⟩
    · simp only [Logged.perform, hr]
      exact h.issued hr hp hd hpacked hconfig hretired
    · simpa only [Logged.perform, hr] using h
  | free k =>
    by_cases hlive : (a.get? k).isSome = true
    · obtain ⟨b, hb, hbooks⟩ := h.freed (ε := Empty) hlive
      simpa only [Logged.perform, hb] using hbooks
    · have hn : (free k : EStateM Empty (Arena β) Bool) a = .ok false a := by
        simp only [free, if_neg hlive]
      simpa only [Logged.perform, hn] using h
  | write k f =>
    simp only [Logged.perform, after_update]
    split
    · exact h.write ‹_› f
    · exact h
  | writeHeader k f =>
    simp only [Logged.perform]
    split
    · rw [modifyHeader_of_live ‹_›]
      exact h.write ‹_› _
    · exact h

theorem run (l : List (Request β)) [Inhabited β] {s : Logged β} (h : Books c t s.arena s.log) :
    Books c t (Logged.run l s).arena (Logged.run l s).log := by
  induction l generalizing s with
  | nil => exact h
  | cons q l ih => exact ih (h.perform q)

/-- The slots that were given out are those on the pages. -/
theorem length_slotsIssued (h : Books c t a log) : (slotsIssued log).length = a.slots.length := by
  have hnodup : (a.located.map (·.1)).Nodup :=
    (pairwise_located h.sound).imp fun hb e => by
      rcases hb with hlt | ⟨_, hlt⟩ <;> exact absurd (e ▸ hlt) (Nat.lt_irrefl _)
  have hperm : (slotsIssued log).Perm (a.located.map (·.1)) := by
    refine (List.perm_ext_iff_of_nodup (List.nodup_dedup _) hnodup).2 fun p => ?_
    refine mem_slotsIssued.trans ?_
    rw [h.times]
    simp only [List.mem_map, Prod.exists, mem_located h.sound, exists_and_right, exists_eq_right]
    cases a.slotAt? p <;> simp
  rw [hperm.length_eq, List.length_map, ← map_located, List.length_map]

theorem times_le (h : Books c t a log) (p : Place) : Arena.times p log ≤ 256 := by
  rw [h.times]
  cases a.slotAt? p with
  | none => exact Nat.zero_le 256
  | some s => exact s.generation.toNat_lt

/-- There is no room for another record just when the slots in use and the retired ones are all
that the layout allows. -/
theorem allocate_error_iff (h : Books c t a log) [Inhabited β] :
    (∃ e b, allocate a = .error e b) ↔ a.live + a.retired = c.capacity := by
  have hcount := h.count
  rcases allocate_packed h.sound h.packed with
    ⟨k, b, hr, hp, hd, hb, hconfig, hlive, hretired⟩ | hfull
  · refine iff_of_false (fun ⟨e, b, he⟩ => by rw [hr] at he; contradiction) fun hall => ?_
    -- the new record is in use too, so there were fewer slots in use and retired before
    have hcount' := (h.issued hr hp hd hb hconfig hretired).count
    have hle := hb.length_slots_le hp.sound.pages_le
    rw [hconfig, h.config] at hle
    omega
  · obtain ⟨hfree, hslots, hr⟩ := hfull
    refine iff_of_true ⟨_, _, hr⟩ ?_
    rw [h.config] at hslots
    rw [hfree, List.length_nil] at hcount
    omega

theorem allocate_of_full (h : Books c t a log) [Inhabited β]
    (hall : a.live + a.retired = c.capacity) : a.freeList = [] ∧
      allocate a = .error (.refused (.capacityExceeded t c.maxPages)) a := by
  obtain ⟨e, b, he⟩ := h.allocate_error_iff.2 hall
  rcases allocate_packed h.sound h.packed with ⟨k, b, hr, _⟩ | ⟨hfree, _, hr⟩
  · rw [hr] at he
    contradiction
  · exact ⟨hfree, by rw [hr, h.type, h.config]⟩

/-- A slot that waits is taken before any other, and no page grows. -/
theorem allocate_of_waiting (h : Books c t a log) [Inhabited β] {rest : List Place}
    (hwaiting : Arena.waiting log = p :: rest) : ∃ k b, allocate a = .ok k b ∧ k.place = p ∧
      b.freeList = rest ∧ b.pageSizes = a.pageSizes := by
  have hfree := h.waiting.trans hwaiting
  rcases allocate_packed h.sound h.packed with ⟨k, b, hr, _, hd, _⟩ | ⟨hnil, _⟩
  · cases hd with
    | again hfree' _ _ hpages =>
      obtain ⟨hplace, hrest⟩ := List.cons.inj (hfree'.symm.trans hfree)
      exact ⟨k, b, hr, hplace, hrest, hpages.sizes⟩
    | first hnil _ _ _ _ => simp [hfree] at hnil
  · simp [hfree] at hnil

end Books
end Arena

/-- Let an arena be asked to place and to free records and to write to live ones, whatever the
handles and the writes are.  The slots that it ever gave out are in use, wait for reuse or are
retired, and there are as many pages as these slots need, all but the last of them full.  It
refuses another record if and only if the slots in use and the retired ones are all that the
layout allows.  Then no slot waits, and refusing changes nothing.  While slots wait, the one that
was freed last is taken and no page grows.  No slot is given out more than 256 times, and one is
retired when the record is freed that has the last of its 256 handles, and not otherwise. -/
theorem slots_accounted_for {β : Type} [Inhabited β] {c : PoolConfig} (hc : c.Valid)
    (scope : ScopeTag) (t : ObjectType) (requests : List (Arena.Request β)) :
    let s := Arena.Logged.run requests { arena := Arena.empty scope t c }
    let issued := (Arena.slotsIssued s.log).length
    issued = s.arena.live + s.arena.freeList.length + s.arena.retired ∧
      (s.arena.pages.size = issued ⌈/⌉ c.pageSlots ∧ ∀ i page, s.arena.pages[i]? = some page →
        i + 1 < s.arena.pages.size → page.size = c.pageSlots) ∧
      ((∃ e a, Arena.allocate s.arena = .error e a) ↔
        s.arena.live + s.arena.retired = c.pageSlots * c.maxPages) ∧
      (s.arena.live + s.arena.retired = c.pageSlots * c.maxPages → s.arena.freeList = [] ∧
        Arena.allocate s.arena = .error (.refused (.capacityExceeded t c.maxPages)) s.arena) ∧
      s.arena.freeList = Arena.waiting s.log ∧
      (∀ p rest, Arena.waiting s.log = p :: rest → ∃ k a, Arena.allocate s.arena = .ok k a ∧
        k.place = p ∧ a.freeList = rest ∧ a.pageSizes = s.arena.pageSizes) ∧
      (∀ p, Arena.times p s.log ≤ 256) ∧ Arena.Numbered s.log ∧
      s.arena.retired = (Arena.retiredSlots s.log).length ∧ (Arena.retiredSlots s.log).Nodup := by
  intro s issued
  have h : Arena.Books c t s.arena s.log := (Arena.Books.empty hc scope t).run requests
  have hissued : issued = s.arena.slots.length := h.length_slotsIssued
  have hpos : 0 < s.arena.config.pageSlots := h.sound.config.bounds.1
  refine ⟨hissued.trans h.count, ⟨?_, fun i page hpage hi => ?_⟩, h.allocate_error_iff,
    h.allocate_of_full, h.waiting, fun p rest => h.allocate_of_waiting, h.times_le, h.numbered,
    h.retired, h.nodup⟩
  · rw [hissued, h.packed.size_eq hpos, h.config]
  · rw [h.packed.full hpage hi, h.config]

/-- An arena of two slots.  The status of one record is cleared by hand, so freeing it does
nothing.  The slot of the other is freed and taken again, and then there is no room. -/
theorem slots_accounted_for_reuse :
    let c : PoolConfig := { pageSlots := 2, maxPages := 1 }
    let key (generation : UInt8) (slot : UInt16) : SlotKey :=
      { scope := ⟨1⟩, type := .inst, generation, place := { page := 0, slot } }
    let requests : List (Arena.Request Unit) :=
      [.allocate, .allocate, .writeHeader (key 0 1) (·.setFlag .valid false), .free (key 0 1),
        .free (key 0 0), .allocate]
    let s := Arena.Logged.run requests { arena := Arena.empty ⟨1⟩ .inst c }
    c.Valid ∧ s.log = [.issued (key 1 0), .freed (key 0 0), .issued (key 0 1), .issued (key 0 0)] ∧
      s.arena.live = 2 ∧ s.arena.freeList = [] ∧
      Arena.allocate s.arena = .error (.refused (.capacityExceeded .inst 1)) s.arena := by
  intro c key requests s
  have hc : c.Valid := by decide
  obtain ⟨_, _, _, hfull, _⟩ := slots_accounted_for hc ⟨1⟩ .inst requests
  rw [show Arena.Logged.run requests _ = s from rfl] at hfull
  obtain ⟨hfree, hr⟩ := hfull (by decide +kernel)
  exact ⟨hc, by decide +kernel, by decide +kernel, hfree, hr⟩

end DesignStore
