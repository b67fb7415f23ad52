/-
What an arena keeps for itself stays in range.

An arena relies on its own notes without checking them: that a place on the free list has a slot
with a generation to spare, that a fresh page has room, that a record that is freed was counted,
and that the number of a page or of a slot has sixteen bits.  Callers write to live records as they
like, but they do not reach a freed one, so none of the notes can be spoilt
(`bookkeeping_in_range`).

The invariant is `Books`, which every request keeps.  Here it is read operation by operation:
placing is no fault (`allocate_ne_fault`), a slot that was never used is given the numbers of the
last slot of the last page (`allocate_last`), and freeing takes one from a number that is not zero
(`live_free`).
-/
import DesignStore.Proofs.Capacity

namespace DesignStore
namespace Arena

variable {β : Type} {a b : Arena β} {p : Place} {k : SlotKey} {log : List Event}

/-! ## The last slot -/

/-- The numbers of a place are those of the last slot of the last page. -/
def IsLast (p : Place) (a : Arena β) : Prop :=
  ∃ before, a.pageSizes = before ++ [p.slot.toNat + 1] ∧ before.length = p.page.toNat

theorem IsLast.congr (h : IsLast p a) (hs : SamePages a b) : IsLast p b := by
  obtain ⟨before, hsizes, hlen⟩ := h
  exact ⟨before, hs.sizes.trans hsizes, hlen⟩

theorem pageSizes_eq_concat {page : Array (Slot β)}
    (hlast : a.pages[a.pages.size - 1]? = some page) :
    ∃ before, a.pageSizes = before ++ [page.size] ∧ before.length = a.pages.size - 1 := by
  have hsize : a.pageSizes.getLast? = some page.size := by
    rw [List.getLast?_eq_getElem?, ← size_pages]
    simp [pageSizes, hlast]
  refine ⟨a.pageSizes.dropLast, (List.dropLast_append_getLast? _ hsize).symm, ?_⟩
  rw [List.length_dropLast, ← size_pages]

variable [Inhabited β]

/-- Pages and slots are numbered in sixteen bits, and the number of a new one is not cut. -/
theorem extend_last (h : a.Sound) (he : extend a = .ok p b) : IsLast p b := by
  obtain ⟨_, hslots, _, hmax⟩ := h.config.bounds
  have hpages := h.pages_le
  have hnumber {n : Nat} (hn : n < 65536) : (UInt16.ofNat n).toNat = n :=
    UInt16.toNat_ofNat_of_lt' hn
  rcases extend_cases he with ⟨page, hlast, hroom, rfl, rfl⟩ | ⟨hmore, rfl, rfl⟩
  · obtain ⟨before, hsizes, hlen⟩ := pageSizes_eq_concat hlast
    refine ⟨before, ?_, ?_⟩
    · rw [pageSizes_modify_last hsizes, hnumber (by omega)]
    · rw [hlen, hnumber (by omega)]
  · refine ⟨a.pageSizes, pageSizes_push a _, ?_⟩
    rw [← size_pages, hnumber (by omega)]

/-- A record is in the last slot of the last page if no slot was waiting for it. -/
theorem allocate_last (h : a.Sound) (hfree : a.freeList = []) (hr : allocate a = .ok k b) :
    IsLast k.place b := by
  cases he : extend a with
  | ok p c =>
    obtain ⟨k', b', hr', rfl, _, _, hpages, _⟩ := allocate_of_claim h (claim_first hfree he)
    cases hr.symm.trans hr'
    exact (extend_last h he).congr hpages
  | error e c =>
    unfold allocate claim at hr
    simp only [hfree, he] at hr
    contradiction

theorem allocate_ne_fault (h : a.Sound) (f : Fault) (b : Arena β) :
    allocate a ≠ .error (.fault f) b := by
  intro hr
  rcases allocate_spec h with ⟨_, _, hr', _⟩ | hr'
  · rw [hr] at hr'
    contradiction
  · cases hr.symm.trans hr'

omit [Inhabited β]

/-! ## The free list -/

/-- A slot that waits has a generation left. -/
theorem Sound.generation_lt (h : a.Sound) (hp : p ∈ a.freeList) : ∃ s,
    a.slotAt? p = some s ∧ s.record.isValid = false ∧ s.generation.toNat < 255 := by
  obtain ⟨s, hs, hv, hg⟩ := h.free_slot p hp
  have hlt := s.generation.toNat_lt
  have hne : s.generation.toNat ≠ 255 := fun e => hg (UInt8.toNat_inj.1 e)
  exact ⟨s, hs, hv, by omega⟩

namespace Books

variable {c : PoolConfig} {t : ObjectType}

theorem issued_of_mem (h : Books c t a log) (hp : p ∈ a.freeList) : p ∈ slotsIssued log := by
  obtain ⟨s, hs, _⟩ := h.sound.free_slot p hp
  rw [mem_slotsIssued, h.times, hs]
  exact Nat.succ_pos _

theorem draws_of_allocate (h : Books c t a log) [Inhabited β] (hr : allocate a = .ok k b) :
    Draws k a b := by
  rcases allocate_packed h.sound h.packed with ⟨k', b', hr', _, hd, _⟩ | ⟨_, _, hr'⟩
  · cases hr.symm.trans hr'
    exact hd
  · rw [hr] at hr'
    contradiction

/-- Freeing lowers the number of the records in use by one if the record is live, and there is one
to take away. -/
theorem live_free (h : Books c t a log) [Inhabited β] {ε : Type} (k : SlotKey) :
    ∃ b, (free k : EStateM ε (Arena β) Bool) a = .ok (a.get? k).isSome b ∧
      a.live = b.live + if (a.get? k).isSome then 1 else 0 := by
  by_cases hlive : (a.get? k).isSome = true
  · obtain ⟨b, hb, _, _, hn, hlen, _⟩ := free_of_live (ε := ε) hlive
    have hle := h.live_le
    exact ⟨b, by rw [hb, hlive], by rw [if_pos hlive]; omega⟩
  · have hn : (a.get? k).isSome = false := by simpa using hlive
    exact ⟨a, by rw [free, if_neg hlive, hn], by rw [if_neg hlive, Nat.add_zero]⟩

end Books
end Arena

/-- Let an arena be asked to place and to free records and to write to live ones, whatever the
handles and the writes are.  No place is on its free list twice.  Each one there was given out, and
its slot holds a record that is not live, in a generation below the last.  Asking for another record
is never a fault.  If a slot waits, the record is placed in it, in the generation that follows; if
none waits, it is placed in the last slot of the last page, and the handle has the numbers of that.
Freeing takes one from the number of the records in use if it frees one, and nothing otherwise.  The
numbers of all pages and slots have sixteen bits. -/
theorem bookkeeping_in_range {β : Type} [Inhabited β] {c : PoolConfig} (hc : c.Valid)
    (scope : ScopeTag) (t : ObjectType) (requests : List (Arena.Request β)) :
    let s := Arena.Logged.run requests { arena := Arena.empty scope t c }
    s.arena.freeList.Nodup ∧
      (∀ p ∈ s.arena.freeList, p ∈ Arena.slotsIssued s.log ∧ ∃ slot,
        s.arena.slotAt? p = some slot ∧ slot.record.isValid = false ∧
          slot.generation.toNat < 255) ∧
      (∀ f a, Arena.allocate s.arena ≠ .error (.fault f) a) ∧
      (∀ k a, Arena.allocate s.arena = .ok k a →
        Arena.Draws k s.arena a ∧ (s.arena.freeList = [] → Arena.IsLast k.place a)) ∧
      (∀ k, ∃ a, (Arena.free k : EStateM Empty (Arena β) Bool) s.arena =
          .ok (s.arena.get? k).isSome a ∧
        s.arena.live = a.live + if (s.arena.get? k).isSome then 1 else 0) ∧
      ∀ i j page slot, s.arena.pages[i]? = some page → page[j]? = some slot →
        (UInt16.ofNat i).toNat = i ∧ (UInt16.ofNat j).toNat = j := by
  intro s
  have h : Arena.Books c t s.arena s.log := (Arena.Books.empty hc scope t).run requests
  refine ⟨h.sound.free_nodup, fun p hp => ⟨h.issued_of_mem hp, h.sound.generation_lt hp⟩,
    Arena.allocate_ne_fault h.sound, fun k a hr => ⟨h.draws_of_allocate hr, fun hfree => ?_⟩,
    h.live_free, fun i j page slot hpage hslot => ?_⟩
  · exact Arena.allocate_last h.sound hfree hr
  · exact ⟨h.sound.page_toNat hpage, h.sound.slot_toNat hpage hslot⟩

/-- Three records on two pages.  The status of one is cleared by hand, so it is not freed.  The
other two are freed, one of them twice, and the next record takes the place that was freed last, in
its next generation. -/
theorem bookkeeping_in_range_cleared :
    let c : PoolConfig := { pageSlots := 2, maxPages := 2 }
    let key (generation : UInt8) (page slot : UInt16) : SlotKey :=
      { scope := ⟨1⟩, type := .inst, generation, place := { page, slot } }
    let requests : List (Arena.Request Unit) :=
      [.allocate, .allocate, .allocate, .writeHeader (key 0 0 1) (·.setFlag .valid false),
        .free (key 0 0 1), .free (key 0 1 0), .free (key 0 0 0), .free (key 0 1 0)]
    let s := Arena.Logged.run requests { arena := Arena.empty ⟨1⟩ .inst c }
    c.Valid ∧ s.arena.freeList = [⟨0, 0⟩, ⟨1, 0⟩] ∧ s.arena.live = 1 ∧
      answer Arena.allocate s.arena = .ok (key 1 0 0) ∧
      (∀ p ∈ s.arena.freeList, ∃ slot, s.arena.slotAt? p = some slot ∧
        slot.record.isValid = false ∧ slot.generation.toNat < 255) ∧
      ∃ a, (Arena.free (key 0 0 1) : EStateM Empty (Arena Unit) Bool) s.arena = .ok false a ∧
        s.arena.live = a.live := by
  intro c key requests s
  have hc : c.Valid := by decide
  obtain ⟨_, hwaiting, _, _, hfreed, _⟩ := bookkeeping_in_range hc ⟨1⟩ .inst requests
  rw [show Arena.Logged.run requests _ = s from rfl] at hwaiting hfreed
  have hdead : (s.arena.get? (key 0 0 1)).isSome = false := by decide +kernel
  obtain ⟨a, ha, hlive⟩ := hfreed (key 0 0 1)
  rw [hdead] at ha hlive
  exact ⟨hc, by decide +kernel, by decide +kernel, by decide +kernel,
    fun p hp => (hwaiting p hp).2, a, ha, hlive⟩

end DesignStore
