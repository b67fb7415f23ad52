/-
The live records of a pool, listed and counted.

A pool keeps no list of its live records.  It finds them by going through its arenas page by
page, and shows the handles that stand in their headers.  Nor does it count them: each arena
keeps a number that placing raises and freeing lowers.  A reader goes a third way, from a handle
to a place.

What holds the three together is said of one arena by `Counted`: each live record has the handle
of the place it is at, and the number is that of the live records.  Both are kept by placing
(`Counted.allocate`), by freeing (`Counted.free`) and by every write that leaves the handle and
the status of a record alone (`Counted.update`).
-/
import DesignStore.Proofs.Locality

namespace DesignStore

/-- The places of an arena in the order of their pages, and in that of their slots on a page. -/
def Place.Before (p q : Place) : Prop :=
  p.page.toNat < q.page.toNat ∨ p.page = q.page ∧ p.slot.toNat < q.slot.toNat

namespace Arena

variable {β : Type} {a b : Arena β} {p : Place} {s : Slot β}

/-! ## Slots and their places -/

/-- The slots in use with their places, by page and by slot. -/
def located (a : Arena β) : List (Place × Slot β) :=
  a.pages.toList.zipIdx.flatMap fun e =>
    e.1.toList.zipIdx.map fun d => ({ page := UInt16.ofNat e.2, slot := UInt16.ofNat d.2 }, d.1)

def keyAt (a : Arena β) (p : Place) (s : Slot β) : SlotKey :=
  { scope := a.scope, type := a.type, generation := s.generation, place := p }

/-- The keys of the live records, by page and by slot. -/
def liveKeys (a : Arena β) : List SlotKey :=
  (a.located.filter (·.2.record.isValid)).map fun e => a.keyAt e.1 e.2

theorem map_located (a : Arena β) : a.located.map (·.2) = a.slots := by
  have hpage (e : Array (Slot β) × Nat) :
      (e.1.toList.zipIdx.map fun d =>
        (({ page := UInt16.ofNat e.2, slot := UInt16.ofNat d.2 } : Place), d.1)).map (·.2) =
      e.1.toList := by
    rw [List.map_map]
    exact List.zipIdx_map_fst 0 e.1.toList
  rw [located, slots, List.map_flatMap]
  simp only [hpage]
  rw [← List.flatMap_map Prod.fst, List.zipIdx_map_fst]

theorem records_eq (a : Arena β) :
    a.records = (a.located.filter (·.2.record.isValid)).map (·.2.record) := by
  rw [records, ← map_located, List.map_map, List.filter_map]
  rfl

/-- The number of a page that is in use has sixteen bits. -/
theorem Sound.page_toNat (h : a.Sound) {i : Nat} {page : Array (Slot β)}
    (hpage : a.pages[i]? = some page) : (UInt16.ofNat i).toNat = i := by
  obtain ⟨_, _, _, hmax⟩ := h.config.bounds
  have hlt := (Array.getElem?_eq_some_iff.1 hpage).1
  have hle := h.pages_le
  exact UInt16.toNat_ofNat_of_lt' (by show _ < 65536; omega)

/-- So has the number of a slot in use. -/
theorem Sound.slot_toNat (h : a.Sound) {i j : Nat} {page : Array (Slot β)} {s : Slot β}
    (hpage : a.pages[i]? = some page) (hs : page[j]? = some s) : (UInt16.ofNat j).toNat = j := by
  obtain ⟨_, hslots, _, _⟩ := h.config.bounds
  have hlt := (Array.getElem?_eq_some_iff.1 hs).1
  have hle := h.page_le hpage
  exact UInt16.toNat_ofNat_of_lt' (by show _ < 65536; omega)

theorem mem_located (h : a.Sound) : (p, s) ∈ a.located ↔ a.slotAt? p = some s := by
  simp only [located, List.mem_flatMap, List.mem_map, Prod.exists, List.mk_mem_zipIdx_iff_getElem?,
    Array.getElem?_toList, slotAt?_eq, Option.bind_eq_some_iff]
  constructor
  · rintro ⟨page, i, hpage, s', j, hs, he⟩
    cases he
    exact ⟨page, by rwa [h.page_toNat hpage], by rwa [h.slot_toNat hpage hs]⟩
  · rintro ⟨page, hpage, hs⟩
    refine ⟨page, p.page.toNat, hpage, s, p.slot.toNat, hs, ?_⟩
    rw [UInt16.ofNat_toNat, UInt16.ofNat_toNat]

theorem pairwise_zipIdx {α : Type} (l : List α) (n : Nat) :
    (l.zipIdx n).Pairwise fun d e => d.2 < e.2 := by
  rw [← List.pairwise_map (f := Prod.snd) (R := (· < ·)), List.zipIdx_map_snd]
  exact List.pairwise_lt_range'

theorem pairwise_located (h : a.Sound) : (a.located.map (·.1)).Pairwise Place.Before := by
  rw [List.pairwise_map, located, List.pairwise_flatMap]
  constructor
  · intro e he
    have hpage : a.pages[e.2]? = some e.1 := by
      simpa using List.mk_mem_zipIdx_iff_getElem?.1 he
    rw [List.pairwise_map]
    refine (pairwise_zipIdx _ _).imp_of_mem fun {d d'} hd hd' hlt => Or.inr ⟨rfl, ?_⟩
    have hs : e.1[d.2]? = some d.1 := by simpa using List.mk_mem_zipIdx_iff_getElem?.1 hd
    have hs' : e.1[d'.2]? = some d'.1 := by simpa using List.mk_mem_zipIdx_iff_getElem?.1 hd'
    simpa only [h.slot_toNat hpage hs, h.slot_toNat hpage hs'] using hlt
  · refine (pairwise_zipIdx _ _).imp_of_mem fun {e e'} he he' hlt => ?_
    have hpage : a.pages[e.2]? = some e.1 := by
      simpa using List.mk_mem_zipIdx_iff_getElem?.1 he
    have hpage' : a.pages[e'.2]? = some e'.1 := by
      simpa using List.mk_mem_zipIdx_iff_getElem?.1 he'
    intro x hx y hy
    obtain ⟨d, _, rfl⟩ := List.mem_map.1 hx
    obtain ⟨d', _, rfl⟩ := List.mem_map.1 hy
    refine Or.inl ?_
    simpa only [h.page_toNat hpage, h.page_toNat hpage'] using hlt

theorem modify_split {α : Type} {l : List α} {i : Nat} {x : α} (hx : l[i]? = some x) :
    ∃ l₁ l₂, l = l₁ ++ x :: l₂ ∧ l₁.length = i ∧ ∀ f, l.modify i f = l₁ ++ f x :: l₂ := by
  obtain ⟨hi, rfl⟩ := List.getElem?_eq_some_iff.1 hx
  refine ⟨l.take i, l.drop (i + 1), ?_, by simp; omega, fun f => List.modify_eq_take_cons_drop hi⟩
  rw [List.cons_getElem_drop_succ, List.take_append_drop]

/-- A slot in use is one of the list, and a change of it is a change of that one. -/
theorem slots_split (hs : a.slotAt? p = some s) :
    ∃ l₁ l₂, a.slots = l₁ ++ s :: l₂ ∧ ∀ f, (a.modifyAt p f).slots = l₁ ++ f s :: l₂ := by
  rw [slotAt?_eq] at hs
  obtain ⟨page, hpage, hs⟩ := Option.bind_eq_some_iff.1 hs
  obtain ⟨u₁, u₂, hu, _, humodify⟩ := modify_split (l := a.pages.toList) (by simpa using hpage)
  obtain ⟨v₁, v₂, hv, _, hvmodify⟩ := modify_split (l := page.toList) (by simpa using hs)
  refine ⟨u₁.flatMap (·.toList) ++ v₁, v₂ ++ u₂.flatMap (·.toList), ?_, fun f => ?_⟩
  · simp [slots, hu, hv]
  · simp [slots, modifyAt, humodify, hvmodify]

/-- A slot that was never used is the next one of the last page, or the first of a new page. -/
theorem extend_cases [Inhabited β] (h : extend a = .ok p b) :
    (∃ page, a.pages[a.pages.size - 1]? = some page ∧ page.size < a.config.pageSlots ∧
        p = { page := UInt16.ofNat (a.pages.size - 1), slot := UInt16.ofNat page.size } ∧
        b = { a with pages := a.pages.modify (a.pages.size - 1) (·.push ⟨0, Record.blank⟩) }) ∨
      a.pages.size < a.config.maxPages ∧ p = { page := UInt16.ofNat a.pages.size, slot := 0 } ∧
        b = { a with pages := a.pages.push #[⟨0, Record.blank⟩] } := by
  have hpush (h : extend.addPage { generation := 0, record := Record.blank } a = .ok p b) :
      a.pages.size < a.config.maxPages ∧ p = { page := UInt16.ofNat a.pages.size, slot := 0 } ∧
        b = { a with pages := a.pages.push #[⟨0, Record.blank⟩] } := by
    unfold extend.addPage at h
    split at h
    · contradiction
    split at h
    · contradiction
    cases h
    exact ⟨Nat.lt_of_not_le ‹_›, rfl, rfl⟩
  unfold extend at h
  cases hlast : a.pages[a.pages.size - 1]? with
  | none =>
    simp only [hlast, Option.map_none] at h
    exact .inr (hpush h)
  | some page =>
    simp only [hlast, Option.map_some] at h
    split at h
    · cases h
      exact .inl ⟨page, rfl, ‹_›, rfl, rfl⟩
    · exact .inr (hpush h)

/-- A slot that was never used comes after all others. -/
theorem slots_extend [Inhabited β] (h : extend a = .ok p b) :
    b.slots = a.slots ++ [{ generation := 0, record := Record.blank }] := by
  rcases extend_cases h with ⟨page, hlast, _, _, rfl⟩ | ⟨_, _, rfl⟩
  · have hlt := (Array.getElem?_eq_some_iff.1 hlast).1
    obtain ⟨u₁, u₂, hu, hlen, hmodify⟩ := modify_split (l := a.pages.toList) (by simpa using hlast)
    -- nothing comes after the last page
    have hsize : u₁.length + (u₂.length + 1) = a.pages.size := by
      simpa using (congrArg List.length hu).symm
    obtain rfl : u₂ = [] := List.eq_nil_of_length_eq_zero (by omega)
    rw [slots, slots, Array.toList_modify, hmodify, hu]
    simp
  · simp [slots]

/-! ## Counting -/

/-- A slot in use has its place in the list of live records, and a change of it changes what is
listed there. -/
theorem records_split (hs : a.slotAt? p = some s) :
    ∃ l₁ l₂, a.records = l₁ ++ [s.record].filter (·.isValid) ++ l₂ ∧
      ∀ f, (a.modifyAt p f).records = l₁ ++ [(f s).record].filter (·.isValid) ++ l₂ := by
  obtain ⟨l₁, l₂, hl, hmodify⟩ := slots_split hs
  refine ⟨(l₁.map (·.record)).filter (·.isValid), (l₂.map (·.record)).filter (·.isValid), ?_,
    fun f => ?_⟩
  · rw [records, hl, List.append_assoc, ← List.filter_append, ← List.filter_append]
    simp
  · rw [records, hmodify f, List.append_assoc, ← List.filter_append, ← List.filter_append]
    simp

/-- Each live record has the handle of the place it is at, and the number that the arena keeps
is that of the live records. -/
structure Counted (a : Arena β) : Prop where
  sound : a.Sound
  stamped : ∀ {p s}, a.slotAt? p = some s → s.record.isValid = true →
    s.record.header.id = (a.keyAt p s).pack
  live_eq : a.live = a.records.length

theorem counted_empty (scope : ScopeTag) (t : ObjectType) {c : PoolConfig} (h : c.Valid) :
    (empty scope t c : Arena β).Counted where
  sound := sound_empty scope t h
  stamped := by simp [slotAt?_eq, empty]
  live_eq := rfl

namespace Counted

/-- A live record that is written to keeps its handle and its status. -/
theorem modifyAt (h : a.Counted) (hs : a.slotAt? p = some s) (hv : s.record.isValid = true)
    {f : Record β → Record β} (hid : (f s.record).header.id = s.record.header.id)
    (hvalid : (f s.record).isValid = true) :
    (a.modifyAt p fun s => { s with record := f s.record }).Counted where
  sound := h.sound.modifyAt (h.sound.not_mem_freeList hs hv) _
  stamped := by
    intro q t ht hvt
    rw [slotAt?_modifyAt] at ht
    by_cases hq : q = p
    · rw [if_pos hq, hq, hs, Option.map_some] at ht
      cases ht
      subst hq
      exact hid.trans (h.stamped hs hv)
    · rw [if_neg hq] at ht
      exact h.stamped ht hvt
  live_eq := by
    obtain ⟨l₁, l₂, hl, hmodify⟩ := records_split hs
    show a.live = _
    rw [h.live_eq, hl, hmodify, List.filter_cons_of_pos hv, List.filter_cons_of_pos hvalid]
    simp

theorem update {ε : Type} (h : a.Counted) {k : SlotKey} (hk : a.Names k)
    {f : Record β → Record β}
    (hf : ∀ r, (f r).header.id = r.header.id ∧ (f r).isValid = r.isValid) :
    (after (update k f : EStateM ε (Arena β) _) a).Counted := by
  by_cases hlive : (a.get? k).isSome = true
  · obtain ⟨s, hs, _, hv⟩ := (get?_isSome_iff hk).1 hlive
    simp only [after, Arena.update, if_pos hlive]
    exact h.modifyAt hs hv (hf s.record).1 ((hf s.record).2.trans hv)
  · simpa only [after, Arena.update, if_neg hlive] using h

theorem modifyHeader (h : a.Counted) {k : SlotKey} (hk : a.Names k) {r : Record β}
    (hr : a.get? k = some r) {f : Header → Header} (hid : (f r.header).id = r.header.id)
    (hvalid : (f r.header).isValid = r.header.isValid) : (a.modifyHeader k f).Counted := by
  obtain ⟨hv, hs⟩ := (get?_eq_some_iff hk).1 hr
  unfold Arena.modifyHeader
  split
  · exact h.modifyAt (f := Record.mapHeader f) hs hv hid (hvalid.trans hv)
  · exact h

/-- The handles in the headers of the live records are those of their places. -/
theorem liveIds (h : a.Counted) : a.liveIds = a.liveKeys.map SlotKey.pack := by
  rw [Arena.liveIds, records_eq, liveKeys, List.map_map, List.map_map]
  refine List.map_congr_left fun e he => ?_
  obtain ⟨hmem, hv⟩ := List.mem_filter.1 he
  exact h.stamped ((mem_located h.sound).1 hmem) hv

theorem length_liveKeys (h : a.Counted) : a.liveKeys.length = a.live := by
  rw [h.live_eq, ← List.length_map (f := SlotKey.pack), ← h.liveIds, Arena.liveIds, List.length_map]

end Counted

/-! ### Placing and freeing -/

section

variable [Inhabited β]

theorem not_isValid_blank : ¬ (Record.blank : Record β).isValid = true := by
  show ¬ ((Flags.empty).has .valid = true)
  decide

/-- Finding a place for a record makes no record live. -/
theorem claim_records (h : a.Sound) {g : UInt8} (hr : claim a = .ok (p, g) b) :
    b.live = a.live ∧ b.records = a.records := by
  unfold claim at hr
  cases hfree : a.freeList with
  | nil =>
    simp only [hfree] at hr
    cases he : extend a with
    | error e b' =>
      rw [he] at hr
      contradiction
    | ok q b' =>
      rw [he] at hr
      cases hr
      have hslots := slots_extend he
      have hsame : b.live = a.live := by
        rcases extend_spec h with ⟨_, _, he', hx⟩ | he'
        · cases he.symm.trans he'
          rw [hx.same]
        · cases he.symm.trans he'
      refine ⟨hsame, ?_⟩
      rw [records, records, hslots, List.map_append, List.filter_append]
      simp [not_isValid_blank]
  | cons q rest =>
    obtain ⟨s, hs, hv, _⟩ := h.free_slot q (by simp [hfree])
    have hs' : ({ a with freeList := rest } : Arena β).slotAt? q = some s := hs
    simp only [hfree, hs', Option.map_some] at hr
    cases hr
    obtain ⟨l₁, l₂, hl, hmodify⟩ := records_split hs'
    refine ⟨rfl, ?_⟩
    rw [hmodify, List.filter_cons_of_neg not_isValid_blank]
    rw [List.filter_cons_of_neg (by simp [hv])] at hl
    exact hl.symm

/-- Placing a record makes it live, with a blank body, and no other. -/
theorem allocate_records (h : a.Sound) {k : SlotKey} (hr : allocate a = .ok k b) :
    b.live = a.live + 1 ∧ ∃ l₁ l₂ r, a.records = l₁ ++ l₂ ∧ b.records = l₁ ++ r :: l₂ ∧
      r.body = (Record.blank : Record β).body := by
  unfold allocate at hr
  rcases claim_spec h with ⟨p, g, b', hb, hc⟩ | he
  · obtain ⟨hlive, hrecords⟩ := claim_records h hb
    have hs := hc.slot p
    rw [if_pos rfl] at hs
    have hs' : ({ b' with live := b'.live + 1 } : Arena β).slotAt? p = _ := hs
    simp only [hb, hs', Option.isSome_some, if_true] at hr
    cases hr
    obtain ⟨l₁, l₂, hl, hmodify⟩ := records_split hs'
    rw [List.filter_cons_of_neg not_isValid_blank, List.filter_nil, List.append_nil] at hl
    have hv (k : SlotKey) (s : Slot β) : (s.stamp k).record.isValid = true :=
      Header.isValid_stamp _ _ _
    refine ⟨congrArg (· + 1) hlive, l₁, l₂, (Slot.stamp
      { scope := b'.scope, type := b'.type, generation := g, place := p }
      { generation := g, record := Record.blank }).record, hrecords.symm.trans hl, ?_, rfl⟩
    rw [hmodify, List.filter_cons_of_pos (hv _ _), List.append_assoc]
    rfl
  · rw [he] at hr
    contradiction

theorem allocate_counts (h : a.Sound) {k : SlotKey} (hr : allocate a = .ok k b) :
    b.live = a.live + 1 ∧ b.records.length = a.records.length + 1 := by
  obtain ⟨hlive, l₁, l₂, r, hl, hl', _⟩ := allocate_records h hr
  refine ⟨hlive, ?_⟩
  rw [hl, hl', List.length_append, List.length_append, List.length_cons]
  omega

/-- Freeing a live record takes it off the list, and no other. -/
theorem free_records {ε : Type} {k : SlotKey} (hk : a.Names k) {r : Record β}
    (hr : a.get? k = some r) :
    let b := after (free k : EStateM ε (Arena β) Bool) a
    b.live = a.live - 1 ∧ ∃ l₁ l₂, a.records = l₁ ++ r :: l₂ ∧ b.records = l₁ ++ l₂ := by
  obtain ⟨hv, hs⟩ := (get?_eq_some_iff hk).1 hr
  obtain ⟨l₁, l₂, hl, hmodify⟩ := records_split hs
  have hcleared := hmodify Slot.clear
  rw [List.filter_cons_of_pos hv, List.append_assoc] at hl
  rw [List.filter_cons_of_neg (by simp [Slot.clear, Record.isValid, Header.isValid_setFlag_false]),
    List.filter_nil, List.append_nil] at hcleared
  unfold after free
  rw [if_pos (by rw [hr, Option.isSome_some])]
  by_cases hg : k.generation = 255
  · rw [if_pos hg]
    exact ⟨rfl, l₁, l₂, hl, hcleared⟩
  · rw [if_neg hg]
    exact ⟨rfl, l₁, l₂, hl, hcleared⟩

theorem free_counts {ε : Type} {k : SlotKey} (hk : a.Names k) (hlive : (a.get? k).isSome = true) :
    let b := after (free k : EStateM ε (Arena β) Bool) a
    b.live = a.live - 1 ∧ b.records.length + 1 = a.records.length := by
  obtain ⟨r, hr⟩ := Option.isSome_iff_exists.1 hlive
  obtain ⟨hn, l₁, l₂, hl, hl'⟩ := free_records (ε := ε) hk hr
  refine ⟨hn, ?_⟩
  rw [hl, hl', List.length_append, List.length_append, List.length_cons]
  omega

namespace Counted

theorem free {ε : Type} (h : a.Counted) {k : SlotKey} (hk : a.Names k) :
    (after (free k : EStateM ε (Arena β) Bool) a).Counted := by
  obtain ⟨b, hb, ht⟩ := free_eq (ε := ε) a k
  have ht := ht hk
  by_cases hlive : (a.get? k).isSome = true
  · have hcounts := free_counts (ε := ε) hk hlive
    rw [after_ok hb] at hcounts ⊢
    obtain ⟨hn, hlen⟩ := hcounts
    refine ⟨ht.sound h.sound, fun {p s} hs hv => ?_, ?_⟩
    · have hkey : b.keyAt p s = a.keyAt p s := by rw [keyAt, keyAt, ht.scope, ht.type]
      rw [hkey]
      rw [ht.slot] at hs
      split at hs
      · -- what is live at the place of the key is of another generation, and was not touched
        obtain ⟨t, ht, rfl⟩ := Option.map_eq_some_iff.1 hs
        unfold Slot.touch at hv ⊢
        split at hv
        · exact absurd hv (by simp [Record.isValid_clear])
        · rename_i hcond
          rw [if_neg hcond]
          exact h.stamped ht hv
      · exact h.stamped hs hv
    · have := h.live_eq
      omega
  · have hsame : after (Arena.free k : EStateM ε (Arena β) Bool) a = a := by
      simp only [after, Arena.free, if_neg hlive]
    rwa [hsame]

/-- Where there is room, one more record is live. -/
theorem allocate (h : a.Counted) : (after allocate a).Counted := by
  rcases allocate_spec h.sound with ⟨k, b, hb, hp⟩ | hr
  · obtain ⟨hn, hlen⟩ := allocate_counts h.sound hb
    rw [after_ok hb]
    refine ⟨hp.sound, fun {p s} hs hv => ?_, by rw [hn, hlen, h.live_eq]⟩
    rw [hp.slot] at hs
    split at hs
    · rename_i hpk
      cases hs
      rw [hpk]
      show k.pack = _
      rw [keyAt, hp.scope, hp.type, ← hp.names.1, ← hp.names.2]
      rfl
    · have hkey : b.keyAt p s = a.keyAt p s := by rw [keyAt, keyAt, hp.scope, hp.type]
      rw [hkey]
      exact h.stamped hs hv
  · rwa [after_error hr]

end Counted

end

theorem mem_liveKeys (h : a.Sound) {k : SlotKey} :
    k ∈ a.liveKeys ↔ a.Names k ∧ (a.get? k).isSome = true := by
  simp only [liveKeys, List.mem_map, List.mem_filter, Prod.exists, mem_located h]
  constructor
  · rintro ⟨p, s, ⟨hs, hv⟩, rfl⟩
    have hn : a.Names (a.keyAt p s) := ⟨rfl, rfl⟩
    exact ⟨hn, (get?_isSome_iff hn).2 ⟨s, hs, rfl, hv⟩⟩
  · rintro ⟨hn, hlive⟩
    obtain ⟨s, hs, hg, hv⟩ := (get?_isSome_iff hn).1 hlive
    exact ⟨k.place, s, ⟨hs, hv⟩, by rw [keyAt, ← hn.1, ← hn.2, hg]⟩

theorem pairwise_liveKeys (h : a.Sound) :
    a.liveKeys.Pairwise fun k l => k.type = l.type ∧ k.place.Before l.place := by
  rw [liveKeys, List.pairwise_map]
  have hlt := List.pairwise_map.1 (pairwise_located h)
  exact (hlt.sublist List.filter_sublist).imp fun hb => ⟨rfl, hb⟩

end Arena

/-! ## Pools -/

namespace BoundArena

variable {ε : Type} {b : BoundArena} {key : SlotKey}

theorem counted_allocate (h : b.arena.Counted) (k : RecordKind) :
    (after (allocate k) b).arena.Counted := by
  obtain ⟨kind, a⟩ := b
  by_cases hk : kind = k
  · have hb : after (allocate k) ⟨kind, a⟩ = ⟨kind, after Arena.allocate a⟩ := by
      simp only [after, allocate, if_pos hk]
      cases Arena.allocate a <;> rfl
    rw [hb]
    exact h.allocate
  · rwa [show after (allocate k) ⟨kind, a⟩ = ⟨kind, a⟩ by simp only [after, allocate, if_neg hk]]

theorem counted_free (h : b.arena.Counted) (hk : b.arena.Names key) :
    (after (free key : EStateM ε BoundArena Bool) b).arena.Counted := by
  obtain ⟨kind, a⟩ := b
  have hb : after (free key : EStateM ε BoundArena Bool) ⟨kind, a⟩ =
      ⟨kind, after (Arena.free key : EStateM ε _ _) a⟩ := by
    simp only [after, free]
    cases (Arena.free key : EStateM ε _ _) a <;> rfl
  rw [hb]
  exact h.free hk

theorem counted_update (h : b.arena.Counted) (hk : b.arena.Names key) {k : RecordKind}
    {f : Record k.Body → Record k.Body}
    (hf : ∀ r, (f r).header.id = r.header.id ∧ (f r).isValid = r.isValid) :
    (after (update k key f : EStateM (Failure ε) BoundArena _) b).arena.Counted := by
  obtain ⟨kind, a⟩ := b
  by_cases hkind : kind = k
  · subst hkind
    rw [after_update_self]
    exact h.update hk hf
  · rwa [after_update_other hkind]

end BoundArena

namespace Pool

variable {ε α : Type} {p : Pool} {id : ObjectId} {key : SlotKey}

/-- The keys of the live records, type by type in the order of first use. -/
def liveKeys (p : Pool) : List SlotKey :=
  p.arenas.flatMap (·.arena.liveKeys)

def types (p : Pool) : List ObjectType :=
  p.arenas.map (·.type)

/-- The live records of every arena are listed and counted as they are found, and no type has two
arenas. -/
structure Counted (p : Pool) : Prop where
  sound : p.Sound
  arena : ∀ b ∈ p.arenas, b.arena.Counted
  nodup : p.types.Nodup

theorem counted_empty (scope : ScopeTag) {c : PoolConfig} (h : c.Valid) :
    (empty scope c).Counted where
  sound := sound_empty scope h
  arena := by simp [empty]
  nodup := List.nodup_nil

/-! ### Requests that leave handles and status alone -/

/-- The handle and the status of a record are not written to. -/
def Use.Discreet : Use → Prop
  | write _ f => ∀ r, (f r).header.id = r.header.id ∧ (f r).isValid = r.isValid
  | writeHeader f => ∀ h, (f h).id = h.id ∧ (f h).isValid = h.isValid
  | editHeader e => ∀ h h', e.apply h = .ok h' → h'.id = h.id ∧ h'.isValid = h.isValid
  | _ => True

def Request.Discreet : Request → Prop
  | allocate _ _ => True
  | use _ u => u.Discreet

/-- The type a record is to be placed under. -/
def Request.placed? : Request → Option ObjectType
  | allocate _ t => some t
  | use _ _ => none

/-- The types under which records are placed, in the order of the first placement. -/
def placedTypes (l : List Request) : List ObjectType :=
  (l.filterMap Request.placed?).eraseDups

/-- The same pool as far as its types are concerned, and counted still. -/
structure Recounts (p p' : Pool) : Prop where
  counted : p'.Counted
  types : p'.types = p.types

theorem Recounts.refl (h : p.Counted) : Recounts p p :=
  ⟨h, rfl⟩

theorem recounts_onArena (h : p.Counted) {x : EStateM ε BoundArena α}
    (hs : (after (onArena key x) p).Sound)
    (hx : ∀ b, p.arena? key.type = some b → b.arena.Counted →
      (after x b).arena.Counted ∧ (after x b).type = b.type) :
    Recounts p (after (onArena key x) p) := by
  have hc (b : BoundArena) (hb : p.arena? key.type = some b) : b.arena.Counted :=
    h.arena b (List.mem_of_find?_eq_some hb)
  have ht : (after (onArena key x) p).types = p.types := by
    rw [types, types, after_onArena]
    exact map_after_onFirst fun b hb => (hx b hb (hc b hb)).2
  refine ⟨⟨hs, ?_, ht.symm ▸ h.nodup⟩, ht⟩
  rw [after_onArena]
  exact forall_after_onFirst (fun b hb hc => (hx b hb hc).1) h.arena

theorem exists_of_header? (hkey : p.key? id = some key) {hd : Header} (hh : p.header? id = some hd) :
    ∃ b r, p.arena? key.type = some b ∧ b.arena.get? key = some r ∧ r.header = hd := by
  obtain ⟨hi, hv⟩ := Option.filter_eq_some_iff.1 hh
  simp only [inspect?, hkey, bind, Option.bind_some, Option.bind_eq_some_iff] at hi
  obtain ⟨b, hb, hi⟩ := hi
  obtain ⟨r, hr, rfl⟩ := Option.map_eq_some_iff.1 hi
  exact ⟨b, r, hb, Option.filter_eq_some_iff.2 ⟨hr, hv⟩, rfl⟩

theorem after_modifyHeader (hkey : p.key? id = some key) {hd : Header}
    (hh : p.header? id = some hd) (f : Header → Header) :
    after (modifyHeader id f : EStateM ε Pool _) p =
      after (onArena key (modify (·.modifyHeader key f) : EStateM ε BoundArena PUnit)) p := by
  simp only [after, modifyHeader, hkey, hh, EStateM.map]
  cases onArena key (modify (·.modifyHeader key f) : EStateM ε BoundArena PUnit) p <;> rfl

/-- A header is changed as the edit says, if the record is there and the edit allows it. -/
theorem after_editHeader (id : ObjectId) (e : HeaderEdit) (p : Pool) :
    after (editHeader id e : EStateM (Failure ε) Pool _) p = p ∨
      ∃ hd hd', p.header? id = some hd ∧ e.apply hd = .ok hd' ∧
        after (editHeader id e : EStateM (Failure ε) Pool _) p =
          after (modifyHeader id fun _ => hd' : EStateM (Failure ε) Pool _) p := by
  cases hh : p.header? id with
  | none => exact .inl (by simp only [after, editHeader, hh])
  | some hd =>
    cases ha : e.apply hd with
    | error f => exact .inl (by simp only [after, editHeader, hh, ha])
    | ok hd' => exact .inr ⟨hd, hd', rfl, ha, by simp only [after, editHeader, hh, ha]⟩

theorem after_free (hkey : p.key? id = some key) :
    after (free id : EStateM ε Pool Bool) p =
      after (onArena key (BoundArena.free (ε := ε) key)) p := by
  simp only [after, free, hkey, EStateM.map]
  cases onArena key (BoundArena.free (ε := ε) key) p <;> rfl

theorem recounts_modifyHeader (h : p.Counted) (id : ObjectId) {f : Header → Header}
    (hf : ∀ hd, p.header? id = some hd → (f hd).id = hd.id ∧ (f hd).isValid = hd.isValid) :
    Recounts p (after (modifyHeader id f : EStateM ε Pool _) p) := by
  cases hh : p.header? id with
  | none =>
    rw [after_ok (modifyHeader_of_not_live hh f)]
    exact Recounts.refl h
  | some hd =>
    cases hkey : p.key? id with
    | none =>
      rw [after_ok (modifyHeader_of_no_key hkey f)]
      exact Recounts.refl h
    | some key =>
      have hs := (touches_modifyHeader (ε := ε) h.sound hkey f).sound
      rw [after_modifyHeader hkey hh] at hs ⊢
      refine recounts_onArena h hs fun b hb hc => ⟨?_, b.type_modifyHeader key f⟩
      obtain ⟨b', r, hb', hget, rfl⟩ := exists_of_header? hkey hh
      cases hb.symm.trans hb'
      exact hc.modifyHeader (h.sound.names hkey hb) hget (hf _ hh).1 (hf _ hh).2

theorem recounts_free (h : p.Counted) (id : ObjectId) :
    Recounts p (after (free id : EStateM ε Pool Bool) p) := by
  cases hkey : p.key? id with
  | none =>
    rw [after_ok (free_of_no_key hkey)]
    exact Recounts.refl h
  | some key =>
    have hnames {b : BoundArena} (hb : p.arena? key.type = some b) := h.sound.names hkey hb
    obtain ⟨p', hp', ht⟩ := free_of_key (ε := ε) h.sound hkey
    have hs := ht.sound
    rw [← after_ok hp', after_free hkey] at hs
    rw [after_free hkey]
    refine recounts_onArena h hs fun b hb hc => ⟨BoundArena.counted_free hc (hnames hb), ?_⟩
    obtain ⟨b', hb', htouch⟩ := BoundArena.free_eq (ε := ε) b key
    rw [after_ok hb']
    exact (htouch (hnames hb)).type

theorem recounts_update (h : p.Counted) (id : ObjectId) {k : RecordKind}
    {f : Record k.Body → Record k.Body} (hf : (Use.write k f).Discreet) :
    Recounts p (after (update k id f : EStateM (Failure ε) Pool _) p) := by
  cases hkey : p.key? id with
  | none =>
    rw [after_ok (update_of_no_key hkey k f)]
    exact Recounts.refl h
  | some key =>
    have hnames {b : BoundArena} (hb : p.arena? key.type = some b) := h.sound.names hkey hb
    have hs := (touches_update (ε := ε) h.sound hkey k f).sound
    rw [after_update hkey] at hs ⊢
    exact recounts_onArena h hs fun b hb hc =>
      ⟨BoundArena.counted_update hc (hnames hb) hf,
        (BoundArena.touches_update (hnames hb) k f).type⟩

/-- The header is changed if the edit allows it, and left alone if it does not. -/
theorem recounts_editHeader (h : p.Counted) (id : ObjectId) {e : HeaderEdit}
    (he : (Use.editHeader e).Discreet) :
    Recounts p (after (editHeader id e : EStateM (Failure ε) Pool _) p) := by
  rcases after_editHeader (ε := ε) id e p with hr | ⟨hd, hd', hh, ha, hr⟩ <;> rw [hr]
  · exact Recounts.refl h
  · refine recounts_modifyHeader h id fun hd'' hh' => ?_
    cases hh.symm.trans hh'
    exact he hd hd' ha

theorem recounts_use (h : p.Counted) (id : ObjectId) {u : Use} (hu : u.Discreet) :
    Recounts p (after (u.perform id) p) := by
  cases u with
  | free =>
    rw [Use.perform, after_map]
    exact recounts_free h id
  | write k f =>
    rw [Use.perform, after_map]
    exact recounts_update h id hu
  | writeHeader f =>
    rw [Use.perform, after_map]
    exact recounts_modifyHeader h id fun hd _ => hu hd
  | editHeader e =>
    rw [Use.perform, after_map]
    exact recounts_editHeader h id hu
  | read k =>
    rw [after_read]
    exact Recounts.refl h
  | header => exact Recounts.refl h
  | inspect => exact Recounts.refl h

/-- A type comes to be the last at its first placement, and stays where it is at every other. -/
theorem counted_allocate (h : p.Counted) (k : RecordKind) (t : ObjectType) :
    (after (allocate k t) p).Counted ∧
      (after (allocate k t) p).types = p.types ++ if t ∈ p.types then [] else [t] := by
  have hs : (after (allocate k t) p).Sound := (follows_allocate h.sound k t).sound
  have hfresh : (Arena.empty p.scope t p.config : Arena k.Body).Counted :=
    Arena.counted_empty p.scope t h.sound.config
  have harena : ∀ b ∈ (after (allocate k t) p).arenas, b.arena.Counted := by
    rw [arenas_after_allocate]
    exact forall_after_onFirstOr
      (BoundArena.counted_allocate (b := { kind := k, arena := _ }) hfresh k)
      (fun b _ hb => BoundArena.counted_allocate hb k) h.arena
  rcases after_onFirstOr { kind := k, arena := Arena.empty p.scope t p.config } (·.type = t)
    (BoundArena.allocate k) p.arenas with ⟨hn, ha⟩ | ⟨l₁, b, l₂, hl, _, hb, ha⟩
  · have htype : (after (BoundArena.allocate k)
        { kind := k, arena := Arena.empty p.scope t p.config }).type = t :=
      type_allocate hfresh.sound k
    have hmem : t ∉ p.types := by
      intro ht
      obtain ⟨b, hb, rfl⟩ := List.mem_map.1 ht
      simpa using List.find?_eq_none.1 hn b hb
    have ht : (after (allocate k t) p).types = p.types ++ [t] := by
      rw [types, types, arenas_after_allocate, ha, List.map_append, List.map_singleton, htype]
    refine ⟨⟨hs, harena, ?_⟩, by rw [ht, if_neg hmem]⟩
    rw [ht]
    exact List.nodup_append.2 ⟨h.nodup, List.nodup_singleton t, fun u hu v hv e =>
      hmem (List.mem_singleton.1 hv ▸ e ▸ hu)⟩
  · have hmem : b ∈ p.arenas := List.mem_of_find?_eq_some hb
    have hbt : b.type = t := by simpa using List.find?_some hb
    have ht : (after (allocate k t) p).types = p.types := by
      rw [types, types, arenas_after_allocate, ha, hl, List.map_append, List.map_append,
        List.map_cons, List.map_cons, type_allocate (h.arena b hmem).sound k]
    refine ⟨⟨hs, harena, ht.symm ▸ h.nodup⟩, ?_⟩
    rw [ht, if_pos (hbt ▸ List.mem_map_of_mem hmem), List.append_nil]

theorem run_append (l l' : List Request) (p : Pool) : run (l ++ l') p = run l' (run l p) :=
  List.foldl_append

theorem placedTypes_allocate (l : List Request) (k : RecordKind) (t : ObjectType) :
    placedTypes (l ++ [.allocate k t]) =
      placedTypes l ++ if t ∈ placedTypes l then [] else [t] := by
  have hmem : t ∈ placedTypes l ↔ t ∈ l.filterMap Request.placed? := List.mem_eraseDups
  have hlast : [Request.allocate k t].filterMap Request.placed? = [t] := rfl
  rw [placedTypes, List.filterMap_append, hlast, eraseDups_concat, ← placedTypes]
  by_cases ht : t ∈ placedTypes l
  · rw [if_pos ht, if_pos (hmem.1 ht), List.append_nil]
  · rw [if_neg ht, if_neg (mt hmem.2 ht)]

theorem placedTypes_use (l : List Request) (id : ObjectId) (u : Use) :
    placedTypes (l ++ [.use id u]) = placedTypes l := by
  have hlast : [Request.use id u].filterMap Request.placed? = [] := rfl
  rw [placedTypes, List.filterMap_append, hlast, List.append_nil, placedTypes]

/-- What is placed, freed and written to with discretion is listed and counted as it is found. -/
theorem counted_run (scope : ScopeTag) {c : PoolConfig} (hc : c.Valid) {l : List Request}
    (hl : ∀ q ∈ l, q.Discreet) :
    let p := run l (empty scope c)
    p.Counted ∧ p.types = placedTypes l ∧ p.scope = scope := by
  induction l using List.reverseRecOn with
  | nil => exact ⟨counted_empty scope hc, rfl, rfl⟩
  | append_singleton l q ih =>
    obtain ⟨h, ht, hs⟩ := ih fun q hq => hl q (List.mem_append_left _ hq)
    have hq : q.Discreet := hl q (by simp)
    have hscope := (q.follows h.sound).scope.trans hs
    rw [run_append]
    cases q with
    | allocate k t =>
      obtain ⟨hc, htypes⟩ := counted_allocate h k t
      rw [ht, ← placedTypes_allocate l k t] at htypes
      have hr (p : Pool) : run [.allocate k t] p = after (allocate k t) p :=
        after_map Answer.placed (allocate k t) p
      rw [hr]
      exact ⟨hc, htypes, (hr _ ▸ hscope)⟩
    | use id u =>
      have hr := recounts_use h id hq
      exact ⟨hr.counted, by rw [placedTypes_use, ← ht]; exact hr.types, hscope⟩

/-! ### What is listed -/

/-- Keys in the order of their types in a list, and of their places if the types are the same. -/
def Precedes (types : List ObjectType) (k l : SlotKey) : Prop :=
  types.idxOf k.type < types.idxOf l.type ∨ k.type = l.type ∧ k.place.Before l.place

theorem not_precedes_self (types : List ObjectType) (k : SlotKey) : ¬ Precedes types k k := by
  rintro (h | ⟨_, h | ⟨_, h⟩⟩) <;> exact Nat.lt_irrefl _ h

namespace Counted

theorem liveIds (h : p.Counted) : p.liveIds = p.liveKeys.map SlotKey.pack := by
  rw [Pool.liveIds, liveKeys, List.map_flatMap]
  exact List.flatMap_congr fun b hb => (h.arena b hb).liveIds

theorem type_of_mem (h : p.Counted) {b : BoundArena} (hb : b ∈ p.arenas)
    (hk : key ∈ b.arena.liveKeys) : key.type = b.type :=
  ((Arena.mem_liveKeys (h.arena b hb).sound).1 hk).1.2

theorem pairwise_liveKeys (h : p.Counted) : p.liveKeys.Pairwise (Precedes p.types) := by
  rw [liveKeys, List.pairwise_flatMap]
  refine ⟨fun b hb => (Arena.pairwise_liveKeys (h.arena b hb).sound).imp Or.inr, ?_⟩
  have hidx : p.types.Pairwise fun t u => p.types.idxOf t < p.types.idxOf u := by
    rw [List.pairwise_iff_getElem]
    intro i j hi hj hij
    rwa [h.nodup.idxOf_getElem, h.nodup.idxOf_getElem]
  refine (List.pairwise_map.1 hidx).imp_of_mem fun {b c} hb hc hlt k hk l hl => Or.inl ?_
  rwa [h.type_of_mem hb hk, h.type_of_mem hc hl]

theorem nodup_liveIds (h : p.Counted) : p.liveIds.Nodup := by
  rw [h.liveIds]
  refine List.Nodup.map SlotKey.pack_injective (h.pairwise_liveKeys.imp ?_)
  rintro k _ hlt rfl
  exact not_precedes_self _ k hlt

theorem unpack?_of_mem (h : p.Counted) (hscope : p.scope.val ≠ 0) (hk : key ∈ p.liveKeys) :
    key.scope = p.scope ∧ SlotKey.unpack? key.pack = some key := by
  obtain ⟨b, hb, hk⟩ := List.mem_flatMap.1 hk
  have hs : key.scope = p.scope :=
    ((Arena.mem_liveKeys (h.arena b hb).sound).1 hk).1.1.trans (h.sound.scope b hb)
  exact ⟨hs, SlotKey.unpack?_pack (hs ▸ hscope)⟩

/-- The live handles of a type are those of the keys of the type. -/
theorem filter_liveIds (h : p.Counted) (hscope : p.scope.val ≠ 0) (t : ObjectType) :
    p.liveIds.filter (·.type? = some t) = (p.liveKeys.filter (·.type = t)).map SlotKey.pack := by
  rw [h.liveIds, List.filter_map]
  refine congrArg (List.map _) (List.filter_congr fun key hkey => ?_)
  simp [ObjectId.type?, (h.unpack?_of_mem hscope hkey).2]

theorem arena?_of_mem (h : p.Counted) {b : BoundArena} (hb : b ∈ p.arenas) :
    p.arena? b.type = some b :=
  (find?_key_eq_some_iff BoundArena.type h.nodup).2 ⟨hb, rfl⟩

/-- The live records under a type are those of its arena. -/
theorem filter_liveKeys (h : p.Counted) (t : ObjectType) :
    p.liveKeys.filter (·.type = t) = (p.arena? t).elim [] (·.arena.liveKeys) :=
  filter_flatMap_of_key BoundArena.type _ h.nodup fun _ hb _ hk => by rw [h.type_of_mem hb hk]

theorem mem_liveKeys (h : p.Counted) :
    key ∈ p.liveKeys ↔ key.scope = p.scope ∧
      ∃ b, p.arena? key.type = some b ∧ (b.arena.get? key).isSome = true := by
  have hself : key ∈ p.liveKeys ↔ key ∈ p.liveKeys.filter (·.type = key.type) := by
    simp [List.mem_filter]
  rw [hself, h.filter_liveKeys]
  cases hb : p.arena? key.type with
  | none => simp
  | some b =>
    have hmem := List.mem_of_find?_eq_some hb
    have htype : b.type = key.type := by simpa using List.find?_some hb
    simp only [Option.elim_some, Arena.mem_liveKeys (h.arena b hmem).sound, Arena.Names,
      h.sound.scope b hmem, Option.some.injEq, exists_eq_left']
    constructor
    · exact fun hk => ⟨hk.1.1, hk.2⟩
    · exact fun hk => ⟨⟨hk.1, htype.symm⟩, hk.2⟩

theorem mem_liveIds (h : p.Counted) (hscope : p.scope.val ≠ 0) (id : ObjectId) :
    id ∈ p.liveIds ↔ p.isLive id = true := by
  rw [h.liveIds, List.mem_map]
  constructor
  · rintro ⟨key, hkey, rfl⟩
    obtain ⟨hs, b, hb, hlive⟩ := h.mem_liveKeys.1 hkey
    have hk : p.key? key.pack = some key :=
      key?_eq_some_iff.2 ⟨SlotKey.unpack?_pack (hs ▸ hscope), hs⟩
    rwa [isLive_eq hk, hb]
  · intro hlive
    cases hkey : p.key? id with
    | none => simp [isLive, header?, inspect?, hkey] at hlive
    | some key =>
      obtain ⟨hunpack, hs⟩ := key?_eq_some_iff.1 hkey
      refine ⟨key, h.mem_liveKeys.2 ⟨hs, ?_⟩, SlotKey.pack_of_unpack? hunpack⟩
      rw [isLive_eq hkey] at hlive
      cases hb : p.arena? key.type with
      | none => simp [hb] at hlive
      | some b => exact ⟨b, rfl, by simpa [hb] using hlive⟩

/-- What reading finds under the handles of a type is what going through its arena finds. -/
theorem records (h : p.Counted) {k : RecordKind} {t : ObjectType}
    (hk : ∀ k' ∈ p.kind? t, k' = k) :
    ∃ l, p.records k t = .ok l ∧
      l.map (·.header.id) = (p.liveKeys.filter (·.type = t)).map SlotKey.pack ∧
      (p.scope.val ≠ 0 →
        (p.liveKeys.filter (·.type = t)).map (p.resolve k ·.pack) = l.map fun r => .ok (some r)) := by
  rw [h.filter_liveKeys]
  cases hb : p.arena? t with
  | none => exact ⟨[], by simp only [Pool.records, hb], rfl, fun _ => rfl⟩
  | some b =>
    have hmem := List.mem_of_find?_eq_some hb
    have htype : b.type = t := by simpa using List.find?_some hb
    have hkind : b.kind = k := hk b.kind (by simp [kind?, hb])
    obtain ⟨kind, a⟩ := b
    obtain rfl : kind = k := hkind
    have hc : a.Counted := h.arena _ hmem
    refine ⟨a.records, by simp only [Pool.records, hb, BoundArena.as?_self], hc.liveIds,
      fun hscope => ?_⟩
    show a.liveKeys.map _ = a.records.map _
    rw [Arena.records_eq, Arena.liveKeys, List.map_map, List.map_map]
    refine List.map_congr_left fun e he => ?_
    obtain ⟨hloc, hv⟩ := List.mem_filter.1 he
    -- the key of a live record leads to the place the record is at
    have hs : (a.keyAt e.1 e.2).scope = p.scope := h.sound.scope _ hmem
    have hkey : p.key? (a.keyAt e.1 e.2).pack = some (a.keyAt e.1 e.2) :=
      key?_eq_some_iff.2 ⟨SlotKey.unpack?_pack (hs ▸ hscope), hs⟩
    have harena : p.arena? (a.keyAt e.1 e.2).type = some ⟨kind, a⟩ := by
      rw [show (a.keyAt e.1 e.2).type = t from htype, hb]
    have hget : a.get? (a.keyAt e.1 e.2) = some e.2.record :=
      (Arena.get?_eq_some_iff ⟨rfl, rfl⟩).2 ⟨hv, (Arena.mem_located hc.sound).1 hloc⟩
    simp only [Function.comp, Pool.resolve, hkey, harena, BoundArena.as?_self, hget]

theorem liveCount (h : p.Counted) : p.liveCount = p.liveKeys.length := by
  rw [liveKeys, length_flatMap_eq_total]
  exact total_congr fun b hb => (h.arena b hb).length_liveKeys.symm

theorem stats (h : p.Counted) : p.stats.map (fun s => (s.type, s.live)) =
    p.types.map fun t => (t, (p.liveKeys.filter (·.type = t)).length) := by
  rw [Pool.stats, types, List.map_map, List.map_map]
  refine List.map_congr_left fun b hb => Prod.ext rfl ?_
  show b.arena.live = (p.liveKeys.filter (·.type = b.type)).length
  rw [h.filter_liveKeys, h.arena?_of_mem hb]
  exact (h.arena b hb).length_liveKeys.symm

end Counted

/-- In a pool in which records are placed, freed and written to, but for their handles and their
status, the live handles are those of the places at which there is a live record, each listed
once: by type, in the order in which types were first placed, and by page and slot.  The same
records are counted, as a whole and under each type, and found by going through a type.  If the
pool has a tag, the handles that are listed are those that are live, and reading them one after
another finds what going through their type finds. -/
theorem enumeration_agrees {c : PoolConfig} (hc : c.Valid) (scope : ScopeTag) {l : List Request}
    (hl : ∀ q ∈ l, q.Discreet) :
    let p := run l (empty scope c)
    p.liveIds = p.liveKeys.map SlotKey.pack ∧ p.liveIds.Nodup ∧
      p.liveKeys.Pairwise (Precedes (placedTypes l)) ∧
      p.liveCount = p.liveIds.length ∧
      p.stats.map (fun s => (s.type, s.live)) =
        (placedTypes l).map (fun t => (t, (p.liveKeys.filter (·.type = t)).length)) ∧
      (∀ t k, (∀ k' ∈ p.kind? t, k' = k) → ∃ rs, p.records k t = .ok rs ∧
        rs.map (·.header.id) = (p.liveKeys.filter (·.type = t)).map SlotKey.pack ∧
        (scope.val ≠ 0 → (p.liveIds.filter (·.type? = some t)).map (p.resolve k) =
          rs.map fun r => .ok (some r))) ∧
      (scope.val ≠ 0 → ∀ id, id ∈ p.liveIds ↔ p.isLive id = true) := by
  intro p
  obtain ⟨h, ht, hscope⟩ := counted_run scope hc hl
  have htag (hs : scope.val ≠ 0) : p.scope.val ≠ 0 := by rwa [hscope]
  have hpairs := h.pairwise_liveKeys
  rw [ht] at hpairs
  refine ⟨h.liveIds, h.nodup_liveIds, hpairs, ?_, ht ▸ h.stats, fun t k hk => ?_, fun hs => ?_⟩
  · rw [h.liveCount, h.liveIds, List.length_map]
  · obtain ⟨rs, hrs, hids, hread⟩ := h.records hk
    refine ⟨rs, hrs, hids, fun hs => ?_⟩
    rw [← hread (htag hs), h.filter_liveIds (htag hs), List.map_map]
    rfl
  · exact h.mem_liveIds (htag hs)

/-- The first of three instances is freed twice, and its slot used again after a net was placed.
Handles of another pool are not freed. -/
theorem enumeration_agrees_reused :
    let c : PoolConfig := { pageSlots := 2, maxPages := 4 }
    let id := fun t g page slot => SlotKey.pack
      { scope := ⟨3⟩, type := t, generation := g, place := { page, slot } }
    let l : List Request := [.allocate .inst .inst, .allocate .inst .inst, .allocate .inst .inst,
      .use (id .inst 0 0 0) .free, .use (id .inst 0 0 0) .free, .allocate .net .net,
      .use ObjectId.null .free, .use ⟨282574488338432⟩ .free,
      .use (id .inst 0 0 1) (.editHeader (.setOwner ⟨7⟩)), .allocate .inst .inst]
    let p := run l (empty ⟨3⟩ c)
    c.Valid ∧ (∀ q ∈ l, q.Discreet) ∧ placedTypes l = [.inst, .net] ∧
      p.liveIds = [id .inst 1 0 0, id .inst 0 0 1, id .inst 0 1 0, id .net 0 0 0] ∧
      p.liveCount = 4 ∧ p.stats.map (fun s => (s.type, s.live)) = [(.inst, 3), (.net, 1)] ∧
      (∀ x, x ∈ p.liveIds ↔ p.isLive x = true) := by
  intro c id l p
  have hc : c.Valid := by decide
  have hl : ∀ q ∈ l, q.Discreet := by
    simp [l, Request.Discreet, Use.Discreet, HeaderEdit.apply, Header.setOwner, Header.isValid]
  obtain ⟨_, _, _, hcount, hstats, _, hlive⟩ := enumeration_agrees hc ⟨3⟩ hl
  have hids : p.liveIds = [id .inst 1 0 0, id .inst 0 0 1, id .inst 0 1 0, id .net 0 0 0] := by
    decide +kernel
  have htypes : placedTypes l = [.inst, .net] := by decide
  have hkeys : [ObjectType.inst, .net].map (fun t => (t, (p.liveKeys.filter (·.type = t)).length)) =
      [(.inst, 3), (.net, 1)] := by decide +kernel
  refine ⟨hc, hl, htypes, hids, ?_, ?_, hlive (by decide)⟩
  · exact hcount.trans (congrArg List.length hids)
  · rw [htypes] at hstats
    exact hstats.trans hkeys

/-- A pool whose tag is zero lists a handle that it does not find live. -/
theorem listed_not_live_without_tag :
    let p := run [.allocate .inst .inst] (empty ⟨0⟩ {})
    let id := SlotKey.pack
      { scope := ⟨0⟩, type := .inst, generation := 0, place := { page := 0, slot := 0 } }
    p.liveIds = [id] ∧ p.isLive id = false := by
  decide +kernel

end Pool
end DesignStore
