/-
Pages are filled one after the other.

An arena adds a page only when the last one is full, and takes a slot only from the last page.
So all its pages but the last are full (`Packed`), the number of its slots tells the number of
its pages, and there is no room for another record just when no slot waits for reuse and there
are as many slots as the layout allows (`allocate_packed`).

Where a record is placed is said by `Draws`: in the slot that was freed last, in its next
generation, or in a slot that was never used, in the first.
-/
import DesignStore.Proofs.Enumeration

namespace DesignStore
namespace Arena

variable {β : Type} {a b : Arena β} {p : Place} {k : SlotKey}

/-! ## Sizes of pages -/

/-- The number of slots in use on each page. -/
def pageSizes (a : Arena β) : List Nat :=
  a.pages.toList.map (·.size)

/-- All pages but the last are full, and no page is empty. -/
def Packed (a : Arena β) : Prop :=
  a.pageSizes = [] ∨ ∃ q m, a.pageSizes = List.replicate q a.config.pageSlots ++ [m] ∧
    0 < m ∧ m ≤ a.config.pageSlots

theorem size_pages (a : Arena β) : a.pages.size = a.pageSizes.length := by
  simp [pageSizes]

theorem length_slots (a : Arena β) : a.slots.length = a.pageSizes.sum := by
  simp [slots, pageSizes, List.length_flatMap]

theorem pageSizes_modifyAt (a : Arena β) (p : Place) (f : Slot β → Slot β) :
    (a.modifyAt p f).pageSizes = a.pageSizes := by
  refine List.ext_getElem? fun i => ?_
  simp only [pageSizes, modifyAt, List.getElem?_map, Array.getElem?_toList, Array.getElem?_modify]
  split
  · rw [Option.map_map]
    exact congrArg (Option.map · _) (funext fun page => Array.size_modify)
  · rfl

theorem packed_empty (scope : ScopeTag) (t : ObjectType) (c : PoolConfig) :
    (empty scope t c : Arena β).Packed :=
  .inl rfl

/-- The pages are as they were, whatever is on them. -/
structure SamePages (a b : Arena β) : Prop where
  config : b.config = a.config
  sizes : b.pageSizes = a.pageSizes

theorem samePages_modifyAt (a : Arena β) (p : Place) (f : Slot β → Slot β) :
    SamePages a (a.modifyAt p f) :=
  ⟨rfl, pageSizes_modifyAt a p f⟩

theorem SamePages.size_pages (h : SamePages a b) : b.pages.size = a.pages.size := by
  rw [Arena.size_pages, h.sizes, ← Arena.size_pages]

theorem SamePages.length_slots (h : SamePages a b) : b.slots.length = a.slots.length := by
  rw [Arena.length_slots, h.sizes, ← Arena.length_slots]

theorem Packed.congr (h : a.Packed) (hs : SamePages a b) : b.Packed := by
  unfold Packed
  rwa [hs.sizes, hs.config]

namespace Packed

/-- Any page but the last is full. -/
theorem full (h : a.Packed) {i : Nat} {page : Array (Slot β)} (hpage : a.pages[i]? = some page)
    (hi : i + 1 < a.pages.size) : page.size = a.config.pageSlots := by
  have hsize : a.pageSizes[i]? = some page.size := by simp [pageSizes, hpage]
  rw [size_pages] at hi
  rcases h with hnil | ⟨q, m, hsizes, _⟩
  · simp [hnil] at hsize
  · rw [hsizes] at hsize hi
    simp only [List.length_append, List.length_replicate, List.length_singleton] at hi
    rw [List.getElem?_append_left (by simp; omega),
      List.getElem?_replicate_of_lt (by omega)] at hsize
    exact (Option.some.inj hsize).symm

/-- There are as many pages as the slots in use need. -/
theorem size_eq (h : a.Packed) (hpos : 0 < a.config.pageSlots) :
    a.pages.size = a.slots.length ⌈/⌉ a.config.pageSlots := by
  rw [size_pages, length_slots, Nat.ceilDiv_eq_add_pred_div]
  rcases h with hnil | ⟨q, m, hsizes, hm, hle⟩
  · rw [hnil, List.length_nil, List.sum_nil, Nat.div_eq_of_lt (by omega)]
  · have hsum : q * a.config.pageSlots + m + a.config.pageSlots - 1 =
        (m - 1) + a.config.pageSlots * (q + 1) := by
      rw [Nat.mul_succ, Nat.mul_comm q]
      omega
    rw [hsizes]
    simp only [List.length_append, List.length_replicate, List.length_singleton, List.sum_append,
      List.sum_replicate, List.sum_singleton, smul_eq_mul]
    rw [hsum, Nat.add_mul_div_left _ _ hpos, Nat.div_eq_of_lt (by omega), Nat.zero_add]

/-- There are no more slots than the layout allows. -/
theorem length_slots_le (h : a.Packed) (hle : a.pages.size ≤ a.config.maxPages) :
    a.slots.length ≤ a.config.capacity := by
  rw [size_pages] at hle
  rw [length_slots, PoolConfig.capacity]
  rcases h with hnil | ⟨q, m, hsizes, _, hm⟩
  · simp [hnil]
  · rw [hsizes] at hle ⊢
    simp only [List.length_append, List.length_replicate, List.length_singleton] at hle
    simp only [List.sum_append, List.sum_replicate, List.sum_singleton, smul_eq_mul]
    nlinarith

end Packed

/-! ## Writing and freeing -/

theorem names_of_live (h : (a.get? k).isSome = true) : a.Names k := by
  by_cases hk : k.scope = a.scope ∧ k.type = a.type
  · exact hk
  · rw [get?, inspect?, if_neg hk] at h
    contradiction

/-- The slot of a record that is found. -/
theorem slot_of_live (h : (a.get? k).isSome = true) :
    ∃ s, a.slotAt? k.place = some s ∧ s.generation = k.generation ∧ s.record.isValid = true :=
  (get?_isSome_iff (names_of_live h)).1 h

theorem modifyHeader_of_live (h : (a.get? k).isSome = true) (f : Header → Header) :
    a.modifyHeader k f =
      a.modifyAt k.place fun s => { s with record := Record.mapHeader f s.record } := by
  cases hr : a.inspect? k with
  | none => simp [get?, hr] at h
  | some r =>
    rw [modifyHeader, hr]
    rfl

theorem after_update {ε : Type} (k : SlotKey) (f : Record β → Record β) (a : Arena β) :
    after (update k f : EStateM ε (Arena β) _) a =
      if (a.get? k).isSome then a.modifyAt k.place fun s => { s with record := f s.record }
      else a := by
  by_cases h : (a.get? k).isSome = true
  · simp only [after, update, if_pos h]
  · simp only [after, update, if_neg h]

/-- Freeing a live record: its slot waits for reuse before all others, or is retired if this was
the last of its generations. -/
theorem free_of_live {ε : Type} [Inhabited β] (h : (a.get? k).isSome = true) :
    ∃ b, (free k : EStateM ε (Arena β) Bool) a = .ok true b ∧ Touches k Record.clear a b ∧
      SamePages a b ∧ b.live = a.live - 1 ∧ b.records.length + 1 = a.records.length ∧
      b.freeList = (if k.generation = 255 then a.freeList else k.place :: a.freeList) ∧
      b.retired = if k.generation = 255 then a.retired + 1 else a.retired := by
  obtain ⟨b, hb, ht⟩ := free_eq (ε := ε) a k
  obtain ⟨hlive, hlen⟩ := free_counts (ε := ε) (names_of_live h) h
  rw [after_ok hb] at hlive hlen
  rw [h] at hb
  have hsizes := pageSizes_modifyAt a k.place Slot.clear
  refine ⟨b, hb, ht (names_of_live h), ?_⟩
  simp only [free, if_pos h] at hb
  split at hb <;> cases hb
  · rename_i hg
    rw [if_pos hg, if_pos hg]
    exact ⟨⟨rfl, hsizes⟩, hlive, hlen, rfl, rfl⟩
  · rename_i hg
    rw [if_neg hg, if_neg hg]
    exact ⟨⟨rfl, hsizes⟩, hlive, hlen, rfl, rfl⟩

theorem samePages_update {ε : Type} (k : SlotKey) (f : Record β → Record β) (a : Arena β) :
    SamePages a (after (update k f : EStateM ε (Arena β) _) a) := by
  rw [after_update]
  split
  · exact samePages_modifyAt _ _ _
  · exact ⟨rfl, rfl⟩

theorem samePages_modifyHeader (k : SlotKey) (f : Header → Header) (a : Arena β) :
    SamePages a (a.modifyHeader k f) := by
  unfold modifyHeader
  split
  · exact samePages_modifyAt _ _ _
  · exact ⟨rfl, rfl⟩

theorem samePages_free {ε : Type} [Inhabited β] (k : SlotKey) (a : Arena β) :
    SamePages a (after (free k : EStateM ε (Arena β) Bool) a) := by
  by_cases h : (a.get? k).isSome = true
  · obtain ⟨b, hb, _, hs, _⟩ := free_of_live (ε := ε) h
    rwa [after_ok hb]
  · have hn : (free k : EStateM ε (Arena β) Bool) a = .ok false a := by simp only [free, if_neg h]
    rw [after_ok hn]
    exact ⟨rfl, rfl⟩

/-! ## Taking a slot -/

theorem pageSizes_push (a : Arena β) (s : Slot β) :
    ({ a with pages := a.pages.push #[s] } : Arena β).pageSizes = a.pageSizes ++ [1] := by
  simp [pageSizes]

theorem last_page {l : List Nat} {m : Nat} (hsizes : a.pageSizes = l ++ [m]) :
    ∃ page, a.pages[a.pages.size - 1]? = some page ∧ page.size = m := by
  have hlast : a.pageSizes[l.length]? = some m := by
    rw [hsizes, List.getElem?_concat_length]
  have hsize : a.pages.size - 1 = l.length := by
    rw [size_pages, hsizes]
    simp
  rw [hsize]
  simpa [pageSizes] using hlast

/-- The last page with one slot more. -/
theorem pageSizes_modify_last {l : List Nat} {m : Nat} (hsizes : a.pageSizes = l ++ [m])
    (s : Slot β) :
    ({ a with pages := a.pages.modify (a.pages.size - 1) (·.push s) } : Arena β).pageSizes =
      l ++ [m + 1] := by
  obtain ⟨page, hlast, hm⟩ := last_page hsizes
  obtain ⟨u₁, u₂, hu, hlen, hmodify⟩ := modify_split (l := a.pages.toList) (by simpa using hlast)
  have hsplit : u₁.map (·.size) ++ page.size :: u₂.map (·.size) = l ++ [m] := by
    rw [← hsizes, pageSizes, hu, List.map_append, List.map_cons]
  have hsize : l.length = u₁.length := by
    rw [hlen, size_pages, hsizes]
    simp
  obtain ⟨rfl, hrest⟩ := List.append_inj hsplit (by simp [hsize])
  obtain ⟨_, hnil⟩ := List.cons.inj hrest
  simp only [pageSizes, Array.toList_modify, hmodify, List.map_append, List.map_cons, hnil,
    Array.size_push, hm]

variable [Inhabited β]

theorem extend_of_room {page : Array (Slot β)} (hlast : a.pages[a.pages.size - 1]? = some page)
    (hroom : page.size < a.config.pageSlots) :
    ∃ p, extend a = .ok p
      { a with pages := a.pages.modify (a.pages.size - 1) (·.push ⟨0, Record.blank⟩) } := by
  unfold extend
  simp only [hlast, Option.map_some]
  rw [if_pos hroom]
  exact ⟨_, rfl⟩

theorem extend_of_full (hfull : ∀ page, a.pages[a.pages.size - 1]? = some page →
      a.config.pageSlots ≤ page.size) :
    extend a = extend.addPage { generation := 0, record := Record.blank } a := by
  unfold extend
  cases hlast : a.pages[a.pages.size - 1]? with
  | none => simp only [hlast, Option.map_none]
  | some page =>
    simp only [hlast, Option.map_some]
    rw [if_neg (Nat.not_lt.2 (hfull page hlast))]

omit [Inhabited β] in
theorem addPage_of_room (hmax : a.pages.size < a.config.maxPages) (hpos : 0 < a.config.pageSlots)
    (s : Slot β) : ∃ p, extend.addPage s a = .ok p { a with pages := a.pages.push #[s] } := by
  rw [extend.addPage, if_neg (by omega), if_neg (by omega)]
  exact ⟨_, rfl⟩

/-- A slot that was never used is taken, or all slots that the layout allows are in use and
nothing is done. -/
theorem extend_packed (h : a.Sound) (hp : a.Packed) :
    (a.slots.length < a.config.capacity ∧ ∃ p b, extend a = .ok p b ∧ Extends p a b ∧ b.Packed) ∨
      a.slots.length = a.config.capacity ∧
        extend a = .error (.refused (.capacityExceeded a.type a.config.maxPages)) a := by
  obtain ⟨hslots, _, hmax, _⟩ := h.config.bounds
  -- the slot that is taken is one of those in use afterwards, so there was room for it
  have htaken {b : Arena β} (he : ∃ p, extend a = .ok p b)
      (hb : b.config = a.config → b.Packed) : a.slots.length < a.config.capacity ∧
        ∃ p b, extend a = .ok p b ∧ Extends p a b ∧ b.Packed := by
    obtain ⟨p, he⟩ := he
    rcases extend_spec h with ⟨_, _, he', hx⟩ | he'
    · cases he.symm.trans he'
      have hconfig : b.config = a.config := by rw [hx.same]
      have hb := hb hconfig
      have hle := hb.length_slots_le (hconfig ▸ hx.pages_le)
      rw [hconfig, slots_extend he, List.length_append, List.length_singleton] at hle
      exact ⟨hle, p, b, he, hx, hb⟩
    · rw [he] at he'
      contradiction
  rcases hp with hnil | ⟨q, m, hsizes, hm, hle⟩
  · have hsize : a.pages.size = 0 := by rw [size_pages, hnil, List.length_nil]
    have hempty : extend a = _ := extend_of_full fun page hpage => by simp [hsize] at hpage
    obtain ⟨p, he⟩ := addPage_of_room (a := a) (by omega) hslots ⟨0, Record.blank⟩
    refine .inl (htaken ⟨p, hempty.trans he⟩ fun _ => .inr ⟨0, 1, ?_, Nat.one_pos, hslots⟩)
    rw [pageSizes_push, hnil]
    rfl
  · obtain ⟨page, hlast, hpage⟩ := last_page hsizes
    rcases Nat.lt_or_eq_of_le hle with hroom | rfl
    · exact .inl (htaken (extend_of_room hlast (hpage ▸ hroom))
        fun _ => .inr ⟨q, m + 1, pageSizes_modify_last hsizes _, Nat.succ_pos m, hroom⟩)
    · have hfull : extend a = _ := extend_of_full fun page' hpage' => by
        cases hlast.symm.trans hpage'
        exact Nat.le_of_eq hpage.symm
      have hsizes : a.pageSizes = List.replicate (q + 1) a.config.pageSlots :=
        hsizes.trans List.replicate_succ'.symm
      rcases Nat.lt_or_ge a.pages.size a.config.maxPages with hmore | hmost
      · obtain ⟨p, he⟩ := addPage_of_room hmore hslots ⟨0, Record.blank⟩
        exact .inl (htaken ⟨p, hfull.trans he⟩ fun _ =>
          .inr ⟨q + 1, 1, by rw [pageSizes_push, hsizes], Nat.one_pos, hslots⟩)
      · have hsize : a.pages.size = a.config.maxPages := Nat.le_antisymm h.pages_le hmost
        refine .inr ⟨?_, ?_⟩
        · rw [length_slots, PoolConfig.capacity, ← hsize, size_pages, hsizes]
          simp [Nat.mul_comm]
        · rw [hfull, extend.addPage, if_pos hmost, hsize]

/-! ## Placing a record -/

/-- Where a record is placed: in the slot that was freed last, in its next generation, or in
one that was never used, in the first. -/
inductive Draws (k : SlotKey) (a b : Arena β) : Prop
  | again {s : Slot β} : a.freeList = k.place :: b.freeList → a.slotAt? k.place = some s →
      k.generation.toNat = s.generation.toNat + 1 → SamePages a b → Draws k a b
  | first : a.freeList = [] → b.freeList = [] → a.slotAt? k.place = none → k.generation = 0 →
      b.slots.length = a.slots.length + 1 → Draws k a b

theorem allocate_of_claim (h : a.Sound) {p : Place} {g : UInt8} {c : Arena β}
    (hr : claim a = .ok (p, g) c) :
    ∃ k b, allocate a = .ok k b ∧ k.place = p ∧ k.generation = g ∧ b.freeList = c.freeList ∧
      SamePages c b ∧ b.retired = c.retired := by
  have hs : (({ c with live := c.live + 1 } : Arena β).slotAt? p).isSome = true := by
    rcases claim_spec h with ⟨_, _, _, hr', hc⟩ | hr'
    · cases hr.symm.trans hr'
      have hslot : ({ c with live := c.live + 1 } : Arena β).slotAt? p = _ := hc.slot p
      rw [hslot, if_pos rfl, Option.isSome_some]
    · rw [hr] at hr'
      contradiction
  let key : SlotKey := { scope := c.scope, type := c.type, generation := g, place := p }
  refine ⟨key, ({ c with live := c.live + 1 } : Arena β).modifyAt p (Slot.stamp key), ?_, rfl, rfl,
    rfl, ⟨rfl, pageSizes_modifyAt _ p _⟩, rfl⟩
  unfold allocate
  simp only [hr, hs, if_true, key]

theorem claim_again (h : a.Sound) {rest : List Place} (hfree : a.freeList = p :: rest) :
    ∃ s g b, claim a = .ok (p, g) b ∧ a.slotAt? p = some s ∧ g.toNat = s.generation.toNat + 1 ∧
      b.freeList = rest ∧ SamePages a b ∧ b.retired = a.retired := by
  obtain ⟨s, hs, _, hg⟩ := h.free_slot p (by simp [hfree])
  have hs' : ({ a with freeList := rest } : Arena β).slotAt? p = some s := hs
  refine ⟨s, s.generation + 1, ({ a with freeList := rest } : Arena β).modifyAt p fun _ =>
    { generation := s.generation + 1, record := Record.blank }, ?_, hs, toNat_next hg, rfl,
    ⟨rfl, pageSizes_modifyAt _ _ _⟩, rfl⟩
  unfold claim
  simp only [hfree, hs', Option.map_some]

theorem claim_first {p : Place} (hfree : a.freeList = []) (he : extend a = .ok p b) :
    claim a = .ok (p, 0) b := by
  unfold claim
  simp only [hfree, he]

/-- A record is placed, or no slot waits for reuse and all slots that the layout allows are in
use: then the arena is said to be full, and nothing is done. -/
theorem allocate_packed (h : a.Sound) (hp : a.Packed) :
    (∃ k b, allocate a = .ok k b ∧ Places k a b ∧ Draws k a b ∧ b.Packed ∧
        b.config = a.config ∧ b.live = a.live + 1 ∧ b.retired = a.retired) ∨
      a.freeList = [] ∧ a.slots.length = a.config.capacity ∧
        allocate a = .error (.refused (.capacityExceeded a.type a.config.maxPages)) a := by
  have hplaced {k : SlotKey} {b : Arena β} (hr : allocate a = .ok k b) :
      Places k a b ∧ b.live = a.live + 1 := by
    rcases allocate_spec h with ⟨_, _, hr', hplaces⟩ | hr'
    · cases hr.symm.trans hr'
      exact ⟨hplaces, (allocate_counts h hr).1⟩
    · rw [hr] at hr'
      contradiction
  cases hfree : a.freeList with
  | cons p rest =>
    obtain ⟨s, g, c, hc, hs, hg, hrest, hpages, hretired⟩ := claim_again h hfree
    obtain ⟨k, b, hr, rfl, rfl, hfree', hpages', hretired'⟩ := allocate_of_claim h hc
    obtain ⟨hplaces, hlive⟩ := hplaced hr
    have hsame : SamePages a b :=
      ⟨hpages'.config.trans hpages.config, hpages'.sizes.trans hpages.sizes⟩
    exact .inl ⟨k, b, hr, hplaces, .again (by rw [hfree, hfree', hrest]) hs hg hsame,
      hp.congr hsame, hsame.config, hlive, hretired'.trans hretired⟩
  | nil =>
    rcases extend_packed h hp with ⟨_, p, c, he, hx, hc⟩ | ⟨hfull, he⟩
    · have hsame : c.freeList = [] ∧ c.config = a.config ∧ c.retired = a.retired := by
        rw [hx.same]
        exact ⟨hfree, rfl, rfl⟩
      obtain ⟨k, b, hr, rfl, hg, hfree', hpages, hretired⟩ :=
        allocate_of_claim h (claim_first hfree he)
      obtain ⟨hplaces, hlive⟩ := hplaced hr
      refine .inl ⟨k, b, hr, hplaces, .first hfree (hfree'.trans hsame.1) hx.fresh hg ?_,
        hc.congr hpages, hpages.config.trans hsame.2.1, hlive, hretired.trans hsame.2.2⟩
      rw [hpages.length_slots, slots_extend he, List.length_append, List.length_singleton]
    · refine .inr ⟨rfl, hfull, ?_⟩
      unfold allocate claim
      simp only [hfree, he]

end Arena
end DesignStore
