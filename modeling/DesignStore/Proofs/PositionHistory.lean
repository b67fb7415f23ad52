/-
Histories of the hierarchy.

A history is a list of requests, each carried out on the table that the one before left.  A
request that is a fault leaves the table as it was.  In every history positions are handed out
in rising order, and one that was handed out belongs to the same owner or to nobody until an
owner is put there by hand (`positions_append_only`).

An owner is always at the position where it is found, but not always found at every position
where it is: one that is given a second position is still at the first.  From then on the
number of owners is not the number of entries, and to delete the owner leaves it at the first
position.  Each of these happens if and only if the other does, and a history keeps clear of
them as long as it gives no owner a second position (`entries_match_positions`).
-/
import DesignStore.Proofs.Positions

namespace DesignStore
namespace Hierarchy

variable {ε : Type} {h h' : Hierarchy} {id : ObjectId} {index : ObjectIndex}

/-- What can be asked of the table. -/
inductive Request where
  | insert (id : ObjectId)
  | delete (id : ObjectId)
  | place (index : ObjectIndex) (id : ObjectId)
  | reset

namespace Request

def perform : Request → EStateM (Failure DbError) Hierarchy Unit
  | insert id => discard (Hierarchy.insert id)
  | delete id => discard (Hierarchy.delete id)
  | place index id => Hierarchy.place index id
  | reset => modify fun _ => Hierarchy.empty

/-- The position a request gives, and the owner it gives it to.  A request that is a fault
gives nothing. -/
def gives? (h : Hierarchy) : Request → Option (ObjectIndex × ObjectId)
  | insert id => (answer (ε := Failure DbError) (Hierarchy.insert id) h).toOption.map (·, id)
  | place index id =>
    (answer (ε := Failure DbError) (Hierarchy.place index id) h).toOption.map fun _ => (index, id)
  | _ => none

/-- The owner of a position is not changed by hand: the table is not reset, and nobody is put
at the position. -/
def Spares (index : ObjectIndex) : Request → Prop
  | place i _ => i ≠ index
  | reset => False
  | _ => True

theorem Spares.ne_reset {q : Request} (h : q.Spares index) : q ≠ reset := by
  rintro rfl
  exact h

/-- An owner is given a position while it is at another one. -/
def Repeats (h : Hierarchy) (q : Request) : Prop :=
  ∃ given ∈ q.gives? h, ∃ e ∈ h.entries, e.2 = given.2 ∧ e.1 ≠ given.1

instance (h : Hierarchy) (q : Request) : Decidable (q.Repeats h) :=
  inferInstanceAs (Decidable (∃ given ∈ q.gives? h, ∃ e ∈ h.entries, e.2 = given.2 ∧ e.1 ≠ given.1))

end Request

def run (l : List Request) (h : Hierarchy) : Hierarchy :=
  l.foldl (fun h q => after q.perform h) h

theorem run_append (l l' : List Request) (h : Hierarchy) : run (l ++ l') h = run l' (run l h) :=
  List.foldl_append

/-- No request of a history gives an owner a position while it is at another one. -/
def Single : Hierarchy → List Request → Prop
  | _, [] => True
  | h, q :: l => ¬ q.Repeats h ∧ Single (after q.perform h) l

instance decidableSingle : (h : Hierarchy) → (l : List Request) → Decidable (Single h l)
  | _, [] => .isTrue trivial
  | h, q :: l =>
    have := decidableSingle (after q.perform h) l
    inferInstanceAs (Decidable (¬ q.Repeats h ∧ Single (after q.perform h) l))

/-! ## What a request does -/

theorem index_eq_of_toNat {i j : ObjectIndex} (h : i.toNat = j.toNat) : i = j :=
  congrArg ObjectIndex.mk (UInt32.toNat_inj.1 h)

theorem lt_size_of_idAt? (h : Hierarchy) (hi : h.idAt? index = some id) : index.toNat < h.size :=
  (Array.getElem?_eq_some_iff.1 (idAt?_eq_some_iff_owner.1 hi).1).1

theorem idAt?_of_owners {owners : Array ObjectId} (ho : h.owners = owners) (i : ObjectIndex) :
    h.idAt? i = (owners[i.toNat]?).bind (·.nonNull?) := by
  rw [← ho]
  rfl

/-- What is kept in every history.  The first position is nobody's. -/
structure Orderly (h : Hierarchy) : Prop where
  located : h.Located
  size_pos : 0 < h.size
  size_le : h.size ≤ UInt32.size
  reserved : h.idAt? ObjectIndex.invalid = none

theorem orderly_empty : empty.Orderly where
  located := located_empty
  size_pos := by decide
  size_le := by decide
  reserved := rfl

/-- What giving an owner a position does.  Whoever was found there is found no longer. -/
structure Gives (index : ObjectIndex) (id : ObjectId) (h h' : Hierarchy) : Prop where
  valid : index.isInvalid = false
  size : h'.size = max h.size (index.toNat + 1)
  idAt? : ∀ i, h'.idAt? i = if i = index then some id else h.idAt? i
  indexOf? : ∀ x, h'.indexOf? x =
    if x = id then some index else if h.indexOf? x = some index then none else h.indexOf? x

theorem nonNull?_of_ne (h : id ≠ ObjectId.null) : id.nonNull? = some id :=
  if_neg fun hn => h (isNull_iff.1 hn)

/-- Giving the next position is a fault, or gives it and says which it is. -/
theorem insert_spec (ho : h.Orderly) (id : ObjectId) :
    (∃ f, insert (ε := ε) id h = .error (.fault f) h) ∨
      ∃ index h', insert (ε := ε) id h = .ok index h' ∧ index.toNat = h.size ∧
        Gives index id h h' := by
  by_cases hnull : id.isNull = true
  · exact Or.inl ⟨_, by rw [insert, if_pos hnull]⟩
  by_cases hfull : UInt32.size ≤ h.owners.size
  · exact Or.inl ⟨_, by rw [insert, if_neg hnull, if_pos hfull]⟩
  refine Or.inr ⟨⟨UInt32.ofNat h.owners.size⟩, _, by rw [insert, if_neg hnull, if_neg hfull], ?_⟩
  have hnat : (⟨UInt32.ofNat h.owners.size⟩ : ObjectIndex).toNat = h.owners.size :=
    UInt32.toNat_ofNat_of_lt' (Nat.lt_of_not_le hfull)
  have hpos : 0 < h.owners.size := ho.size_pos
  refine ⟨hnat, ?_, ?_, fun i => ?_, fun x => ?_⟩
  · rw [Bool.eq_false_iff]
    intro hi
    have hi : (⟨UInt32.ofNat h.owners.size⟩ : ObjectIndex).toNat = 0 := by
      rw [ObjectIndex.toNat, beq_iff_eq.1 hi]
      rfl
    omega
  · rw [Hierarchy.size, Array.size_push, hnat, Hierarchy.size]
    omega
  · rw [idAt?_of_owners rfl, Array.getElem?_push]
    by_cases hi : i.toNat = h.owners.size
    · rw [if_pos hi, if_pos (index_eq_of_toNat (hi.trans hnat.symm)), Option.bind_some,
        nonNull?_of_ne fun hn => hnull (isNull_iff.2 hn)]
    · rw [if_neg hi, if_neg fun e => hi ((congrArg ObjectIndex.toNat e).trans hnat)]
      rfl
  · -- nobody is found at a position that was never handed out
    have hx : h.indexOf? x ≠ some ⟨UInt32.ofNat h.owners.size⟩ := fun hx => by
      have hlt := lt_size_of_idAt? h (ho.located.idAt? hx)
      rw [hnat] at hlt
      exact Nat.lt_irrefl _ hlt
    rw [if_neg hx]
    exact Assoc.get?_insert h.positions id x _

theorem get?_vacated (hl : h.Located) (x : ObjectId) :
    (h.vacated index).get? x = if h.indexOf? x = some index then none else h.indexOf? x := by
  unfold vacated
  by_cases hx : h.indexOf? x = some index
  · rw [if_pos hx, hl.idAt? hx]
    simp only [hx, if_true]
    rw [Assoc.get?_erase, if_pos rfl]
  · rw [if_neg hx]
    split
    · rename_i previous _
      split
      · rename_i hp
        rw [Assoc.get?_erase, if_neg]
        · rfl
        · rintro rfl
          exact hx hp
      · rfl
    · rfl

/-- Putting an owner at a position is a fault, or gives it the position. -/
theorem place_spec (ho : h.Orderly) (index : ObjectIndex) (id : ObjectId) :
    (∃ f, place (ε := ε) index id h = .error (.fault f) h) ∨
      ∃ h', place (ε := ε) index id h = .ok () h' ∧ Gives index id h h' := by
  by_cases hinvalid : index.isInvalid = true
  · exact Or.inl ⟨_, by rw [place, if_pos hinvalid]⟩
  by_cases hnull : id.isNull = true
  · exact Or.inl ⟨_, by rw [place, if_neg hinvalid, if_pos hnull]⟩
  refine Or.inr ⟨_, by rw [place, if_neg hinvalid, if_neg hnull], ?_⟩
  refine ⟨by simpa using hinvalid, ?_, fun i => ?_, fun x => ?_⟩
  · rw [size, Array.size_setIfInBounds, Array.size_append, Array.size_replicate, size]
    omega
  · rw [idAt?_of_owners rfl, Array.getElem?_setIfInBounds]
    by_cases hi : i = index
    · rw [if_pos (congrArg ObjectIndex.toNat hi.symm), if_pos hi, if_pos, Option.bind_some,
        nonNull?_of_ne fun hn => hnull (isNull_iff.2 hn)]
      rw [Array.size_append, Array.size_replicate]
      omega
    · rw [if_neg fun e => hi (index_eq_of_toNat e.symm), if_neg hi, idAt?_of_owners rfl]
      by_cases hlt : i.toNat < h.owners.size
      · rw [Array.getElem?_append_left hlt]
      · -- the positions that are added are empty
        rw [Array.getElem?_append_right (Nat.le_of_not_lt hlt), Array.getElem?_replicate,
          Array.getElem?_eq_none (Nat.le_of_not_lt hlt)]
        split <;> rfl
  · refine (Assoc.get?_insert (h.vacated index) id x index).trans ?_
    rw [get?_vacated ho.located]

theorem size_delete (h : Hierarchy) (id : ObjectId) :
    (after (delete (ε := ε) id) h).size = h.size := by
  unfold after delete
  cases h.positions.get? id with
  | none => rfl
  | some i => exact Array.size_setIfInBounds

theorem indexOf?_delete (h : Hierarchy) (id x : ObjectId) :
    (after (delete (ε := ε) id) h).indexOf? x = if x = id then none else h.indexOf? x := by
  unfold after delete
  cases hi : h.positions.get? id with
  | none =>
    by_cases hx : x = id
    · rw [if_pos hx, hx]
      exact hi
    · rw [if_neg hx]
  | some i => exact Assoc.get?_erase h.positions id x

/-- Deleting an owner empties the position where it is found, and no other. -/
theorem idAt?_delete (hl : h.Located) (id : ObjectId) (i : ObjectIndex) :
    (after (delete (ε := ε) id) h).idAt? i =
      if h.indexOf? id = some i then none else h.idAt? i := by
  unfold after delete
  cases hi : h.positions.get? id with
  | none =>
    rw [if_neg]
    rw [indexOf?, hi]
    exact Option.some_ne_none _ ∘ Eq.symm
  | some j =>
    rw [idAt?_of_owners rfl, Array.getElem?_setIfInBounds, indexOf?, hi]
    by_cases hj : j = i
    · subst hj
      have hlt : j.toNat < h.owners.size := lt_size_of_idAt? h (hl.idAt? hi)
      rw [if_pos rfl, if_pos hlt, if_pos rfl]
      rfl
    · rw [if_neg fun e => hj (index_eq_of_toNat e), if_neg fun e => hj (Option.some.inj e)]
      rfl

theorem after_perform_insert (id : ObjectId) (h : Hierarchy) :
    after (Request.insert id).perform h = after (insert (ε := DbError) id) h :=
  after_discard _ h

theorem after_perform_delete (id : ObjectId) (h : Hierarchy) :
    after (Request.delete id).perform h = after (delete (ε := Failure DbError) id) h :=
  after_discard _ h

theorem gives?_insert {h' : Hierarchy} (hr : insert (ε := DbError) id h = .ok index h') :
    (Request.insert id).gives? h = some (index, id) := by
  simp only [Request.gives?, answer, hr]
  rfl

theorem gives?_place {h' : Hierarchy} (hr : place (ε := DbError) index id h = .ok () h') :
    (Request.place index id).gives? h = some (index, id) := by
  simp only [Request.gives?, answer, hr]
  rfl

/-- Every request is a fault, gives a position, deletes an owner or empties the table. -/
theorem perform_cases (ho : h.Orderly) (q : Request) :
    (q.gives? h = none ∧ ∃ f, q.perform h = .error (.fault f) h) ∨
      (∃ index id h', q.gives? h = some (index, id) ∧ q.perform h = .ok () h' ∧
        Gives index id h h') ∨
      (∃ id, q = .delete id) ∨ q = .reset := by
  cases q with
  | insert id =>
    rcases insert_spec (ε := DbError) ho id with ⟨f, hf⟩ | ⟨index, h', hr, _, hg⟩
    · refine Or.inl ⟨?_, f, ?_⟩
      · simp only [Request.gives?, answer, hf]
        rfl
      · rw [Request.perform, discard_apply, hf]
    · exact Or.inr (Or.inl ⟨index, id, h', gives?_insert hr, discard_ok hr, hg⟩)
  | delete id => exact Or.inr (Or.inr (Or.inl ⟨id, rfl⟩))
  | place index id =>
    rcases place_spec (ε := DbError) ho index id with ⟨f, hf⟩ | ⟨h', hr, hg⟩
    · refine Or.inl ⟨?_, f, hf⟩
      simp only [Request.gives?, answer, hf]
      rfl
    · exact Or.inr (Or.inl ⟨index, id, h', gives?_place hr, hr, hg⟩)
  | reset => exact Or.inr (Or.inr (Or.inr rfl))

theorem Located.perform (hl : h.Located) (q : Request) : (after q.perform h).Located := by
  cases q with
  | insert id =>
    rw [after_perform_insert]
    exact hl.insert id
  | delete id =>
    rw [after_perform_delete]
    exact hl.delete id
  | place index id => exact hl.place index id
  | reset => exact located_empty

theorem toNat_lt (i : ObjectIndex) : i.toNat < UInt32.size :=
  i.val.toNat_lt

theorem Orderly.perform (ho : h.Orderly) (q : Request) : (after q.perform h).Orderly := by
  have hl := ho.located.perform q
  rcases perform_cases ho q with ⟨_, f, hr⟩ | ⟨index, id, h', _, hr, hg⟩ | ⟨id, rfl⟩ | rfl
  · rwa [after_error hr]
  · rw [after_ok hr] at hl ⊢
    have hpos := ho.size_pos
    have hle := ho.size_le
    have hlt := toNat_lt index
    refine ⟨hl, ?_, ?_, ?_⟩
    · rw [hg.size]
      omega
    · rw [hg.size]
      omega
    · rw [hg.idAt?, if_neg, ho.reserved]
      rintro rfl
      exact absurd hg.valid (by decide)
  · rw [after_perform_delete] at hl ⊢
    refine ⟨hl, ?_, ?_, ?_⟩
    · rw [size_delete]
      exact ho.size_pos
    · rw [size_delete]
      exact ho.size_le
    · rw [idAt?_delete ho.located, ho.reserved, ite_self]
  · exact orderly_empty

theorem Orderly.run (ho : h.Orderly) (l : List Request) : (run l h).Orderly := by
  induction l generalizing h with
  | nil => exact ho
  | cons q l ih => exact ih (ho.perform q)

/-! ## Positions are handed out once -/

/-- A table keeps its length or grows until it is reset. -/
theorem size_le_perform (ho : h.Orderly) {q : Request} (hq : q ≠ .reset) :
    h.size ≤ (after q.perform h).size := by
  rcases perform_cases ho q with ⟨_, f, hr⟩ | ⟨index, id, h', _, hr, hg⟩ | ⟨id, rfl⟩ | rfl
  · rw [after_error hr]
  · rw [after_ok hr, hg.size]
    exact Nat.le_max_left _ _
  · rw [after_perform_delete, size_delete]
  · exact absurd rfl hq

theorem size_le_run (ho : h.Orderly) {l : List Request} (hl : ∀ q ∈ l, q ≠ .reset) :
    h.size ≤ (run l h).size := by
  induction l generalizing h with
  | nil => exact Nat.le_refl _
  | cons q l ih =>
    have hq := size_le_perform ho (hl q List.mem_cons_self)
    exact Nat.le_trans hq (ih (ho.perform q) fun q' hq' => hl q' (List.mem_cons_of_mem q hq'))

/-- What is at a position that was handed out does not come to be another owner. -/
theorem idAt?_perform (ho : h.Orderly) {q : Request} {i : ObjectIndex} (hi : i.toNat < h.size)
    (hq : q.Spares i) : (after q.perform h).idAt? i = h.idAt? i ∨
      (after q.perform h).idAt? i = none := by
  cases q with
  | insert id =>
    rw [after_perform_insert]
    rcases insert_spec (ε := DbError) ho id with ⟨f, hf⟩ | ⟨index, h', hr, hnat, hg⟩
    · rw [after_error hf]
      exact Or.inl rfl
    · rw [after_ok hr, hg.idAt?, if_neg]
      · exact Or.inl rfl
      · rintro rfl
        exact Nat.ne_of_lt hi hnat
  | delete id =>
    rw [after_perform_delete, idAt?_delete ho.located]
    split
    · exact Or.inr rfl
    · exact Or.inl rfl
  | place index id =>
    have hne : ¬ i = index := fun e => hq e.symm
    rcases place_spec (ε := DbError) ho index id with ⟨f, hf⟩ | ⟨h', hr, hg⟩
    · exact Or.inl (congrArg (·.idAt? i) (after_error hf))
    · have hr' : after (Request.place index id).perform h = h' := after_ok hr
      rw [hr', hg.idAt?, if_neg hne]
      exact Or.inl rfl
  | reset => exact hq.elim

theorem idAt?_run (ho : h.Orderly) {l : List Request} {i : ObjectIndex} (hi : i.toNat < h.size)
    (hl : ∀ q ∈ l, q.Spares i) : (run l h).idAt? i = h.idAt? i ∨ (run l h).idAt? i = none := by
  induction l generalizing h with
  | nil => exact Or.inl rfl
  | cons q l ih =>
    have hq := hl q List.mem_cons_self
    have hsize : h.size ≤ (after q.perform h).size := size_le_perform ho hq.ne_reset
    rcases ih (ho.perform q) (Nat.lt_of_lt_of_le hi hsize)
      fun q' hq' => hl q' (List.mem_cons_of_mem q hq') with hr | hr
    · rcases idAt?_perform ho hi hq with hs | hs
      · exact Or.inl (hr.trans hs)
      · exact Or.inr (hr.trans hs)
    · exact Or.inr hr

theorem gives_of_gives? (ho : h.Orderly) {q : Request} (hq : q.gives? h = some (index, id)) :
    Gives index id h (after q.perform h) := by
  rcases perform_cases ho q with ⟨hn, _⟩ | ⟨i, x, h', hs, hr, hg⟩ | ⟨x, rfl⟩ | rfl
  · rw [hn] at hq
    contradiction
  · rw [hs] at hq
    cases hq
    rwa [after_ok hr]
  · contradiction
  · contradiction

theorem perform_error (ho : h.Orderly) {q : Request} {e : Failure DbError}
    (hr : q.perform h = .error e h') : h' = h := by
  rcases perform_cases ho q with ⟨_, f, hs⟩ | ⟨i, x, h'', _, hs, _⟩ | ⟨x, rfl⟩ | rfl
  · rw [hs] at hr
    cases hr
    rfl
  · rw [hs] at hr
    contradiction
  · rw [Request.perform, discard_apply, delete] at hr
    cases hx : h.positions.get? x with
    | none => simp only [hx, reduceCtorEq] at hr
    | some i => simp only [hx, reduceCtorEq] at hr
  · contradiction

theorem isInvalid_of_indexOf? (ho : h.Orderly) (hi : h.indexOf? id = some index) :
    index.isInvalid = false := by
  rw [Bool.eq_false_iff]
  intro hinvalid
  have hi0 : index = ObjectIndex.invalid := congrArg ObjectIndex.mk (beq_iff_eq.1 hinvalid)
  have hat := ho.located.idAt? hi
  rw [hi0, ho.reserved] at hat
  contradiction

theorem insert_ok (ho : h.Orderly) (hr : insert (ε := ε) id h = .ok index h') :
    index.toNat = h.size ∧ Gives index id h h' := by
  rcases insert_spec (ε := ε) ho id with ⟨f, hf⟩ | ⟨i, h'', hr', hnat, hg⟩
  · rw [hf] at hr
    contradiction
  · rw [hr'] at hr
    cases hr
    exact ⟨hnat, hg⟩

/-- The table is longer than every position that was given since it was last reset. -/
theorem lt_size_of_gives? (ho : h.Orderly) {q : Request} (hq : q.gives? h = some (index, id))
    {later : List Request} (hl : ∀ q ∈ later, q ≠ .reset) :
    index.toNat < (run later (after q.perform h)).size := by
  have hsize := size_le_run (ho.perform q) hl
  rw [(gives_of_gives? ho hq).size] at hsize
  omega

theorem idAt?_run_of_none (ho : h.Orderly) {l : List Request} {i : ObjectIndex}
    (hi : i.toNat < h.size) (hl : ∀ q ∈ l, q.Spares i) (hn : h.idAt? i = none) :
    (run l h).idAt? i = none := by
  rcases idAt?_run ho hi hl with hs | hs
  · rw [hs, hn]
  · exact hs

/-- Position 0 is nobody's, and an owner is at the position where it is found.  A position that
is handed out is above all that were handed out or filled since the table was last reset; from
then on the owner it was handed out for is there, or nobody, and once nobody is there it stays
empty, until the table is reset or somebody is put at the position by hand. -/
theorem positions_append_only (l : List Request) :
    let h := run l empty
    (∀ (q : Request) e h', q.perform h = .error e h' → h' = h) ∧
      h.idAt? ObjectIndex.invalid = none ∧
      (∀ id i, h.indexOf? id = some i → i.isInvalid = false ∧ h.idAt? i = some id) ∧
      ∀ id i h', insert (ε := DbError) id h = .ok i h' →
        (∀ before q later j x, l = before ++ q :: later →
          q.gives? (run before empty) = some (j, x) → (∀ q ∈ later, q ≠ .reset) →
          j.toNat < i.toNat) ∧
        ∀ later, (∀ q ∈ later, q.Spares i) →
          ((run later h').idAt? i = some id ∨ (run later h').idAt? i = none) ∧
          ((run later h').idAt? i = none → ∀ further, (∀ q ∈ further, q.Spares i) →
            (run further (run later h')).idAt? i = none) := by
  intro h
  have ho : h.Orderly := orderly_empty.run l
  refine ⟨fun q e h' hr => perform_error ho hr, ho.reserved,
    fun id i hi => ⟨isInvalid_of_indexOf? ho hi, ho.located.idAt? hi⟩, fun id i h' hr => ?_⟩
  obtain ⟨hnat, hg⟩ := insert_ok ho hr
  have ho' : h'.Orderly := by
    have hperform := ho.perform (.insert id)
    rwa [after_perform_insert, after_ok hr] at hperform
  have hlt : i.toNat < h'.size := by
    rw [hg.size]
    omega
  refine ⟨fun before q later j x hl hq hlater => ?_, fun later hlater => ⟨?_, ?_⟩⟩
  · have hb : (run before empty).Orderly := orderly_empty.run before
    have hh : h = run later (after q.perform (run before empty)) := by
      show run l empty = _
      rw [hl, run_append]
      rfl
    rw [hnat, hh]
    exact lt_size_of_gives? hb hq hlater
  · have hrun := idAt?_run ho' hlt hlater
    rwa [hg.idAt?, if_pos rfl] at hrun
  · intro hn further hfurther
    have hsize : i.toNat < (run later h').size :=
      Nat.lt_of_lt_of_le hlt (size_le_run ho' fun q hq => (hlater q hq).ne_reset)
    exact idAt?_run_of_none (ho'.run later) hsize hfurther hn

/-- Somebody was put at position 5, so the next owner is at 6.  It is there until it is deleted,
and nobody is there from then on, also when the owner is taken in again. -/
theorem positions_append_only_taken_in_again :
    let h := run [.insert ⟨7⟩, .place ⟨5⟩ ⟨8⟩, .delete ⟨7⟩] empty
    let h' := after (insert (ε := DbError) ⟨9⟩) h
    insert (ε := DbError) ⟨9⟩ h = .ok ⟨6⟩ h' ∧ (⟨5⟩ : ObjectIndex).toNat < (⟨6⟩ : ObjectIndex).toNat ∧
      (run [.insert ⟨7⟩, .delete ⟨9⟩] h').idAt? ⟨6⟩ = none ∧
      (run [.insert ⟨9⟩, .place ⟨1⟩ ⟨9⟩] (run [.insert ⟨7⟩, .delete ⟨9⟩] h')).idAt? ⟨6⟩ = none := by
  intro h h'
  obtain ⟨_, _, _, hinsert⟩ := positions_append_only [.insert ⟨7⟩, .place ⟨5⟩ ⟨8⟩, .delete ⟨7⟩]
  have hr : insert (ε := DbError) ⟨9⟩ h = .ok ⟨6⟩ h' := rfl
  obtain ⟨habove, hlater⟩ := hinsert ⟨9⟩ ⟨6⟩ h' hr
  have hlt := habove [.insert ⟨7⟩] (.place ⟨5⟩ ⟨8⟩) [.delete ⟨7⟩] ⟨5⟩ ⟨8⟩ rfl rfl (by simp)
  obtain ⟨_, hnone⟩ := hlater [.insert ⟨7⟩, .delete ⟨9⟩] (by simp [Request.Spares])
  have hempty : (run [.insert ⟨7⟩, .delete ⟨9⟩] h').idAt? ⟨6⟩ = none := by decide +kernel
  exact ⟨hr, hlt, hempty, hnone hempty [.insert ⟨9⟩, .place ⟨1⟩ ⟨9⟩] (by simp [Request.Spares])⟩

/-! ## Owners that are found -/

/-- The entries are the owners at all positions but the first, which is nobody's. -/
theorem mem_entries (ho : h.Orderly) {e : ObjectIndex × ObjectId} :
    e ∈ h.entries ↔ h.idAt? e.1 = some e.2 := by
  obtain ⟨i, id⟩ := e
  have hmem (p : ObjectId × Nat) :
      p ∈ h.owners.toList.zipIdx.drop 1 ↔ p.2 ≠ 0 ∧ h.owners[p.2]? = some p.1 := by
    rw [← Array.getElem?_toList]
    cases h.owners.toList with
    | nil => simp
    | cons a l =>
      rw [List.zipIdx_cons, List.drop_one, List.tail_cons, List.mem_zipIdx_iff_le_and_getElem?_sub]
      cases p.2 <;> simp
  simp only [entries, List.mem_map, List.mem_filter, hmem, Prod.mk.injEq]
  constructor
  · rintro ⟨⟨x, n⟩, ⟨⟨_, hx⟩, hn⟩, hi, rfl⟩
    have hlt : n < UInt32.size :=
      Nat.lt_of_lt_of_le (Array.getElem?_eq_some_iff.1 hx).1 ho.size_le
    have hnat : i.toNat = n := by
      rw [← hi]
      exact UInt32.toNat_ofNat_of_lt' hlt
    refine idAt?_eq_some_iff_owner.2 ⟨by rw [hnat, hx], ?_⟩
    rintro rfl
    contradiction
  · intro hi
    obtain ⟨hat, hne⟩ := idAt?_eq_some_iff_owner.1 hi
    refine ⟨(id, i.toNat), ⟨⟨fun h0 => ?_, hat⟩, ?_⟩, ?_, rfl⟩
    · rw [show i = ObjectIndex.invalid from index_eq_of_toNat h0, ho.reserved] at hi
      contradiction
    · rw [Bool.not_eq_true', Bool.eq_false_iff]
      exact fun hn => hne (isNull_iff.1 hn)
    · simp [ObjectIndex.toNat]

/-- The entries are in the order of their positions. -/
theorem pairwise_entries (ho : h.Orderly) :
    h.entries.Pairwise fun e e' => e.1.toNat < e'.1.toNat := by
  have hsnd : ((h.owners.toList.zipIdx.drop 1).map Prod.snd).Pairwise (· < ·) := by
    rw [List.map_drop, List.zipIdx_map_snd]
    have hrange : (List.range' 0 h.owners.toList.length).Pairwise (· < ·) :=
      List.pairwise_lt_range'
    exact hrange.sublist (List.drop_sublist 1 _)
  have hnat : h.entries.map (fun e => e.1.toNat) =
      ((h.owners.toList.zipIdx.drop 1).filter fun e => !e.1.isNull).map Prod.snd := by
    rw [entries, List.map_map]
    refine List.map_congr_left fun e he => ?_
    have hlt := List.snd_lt_of_mem_zipIdx (List.mem_of_mem_drop (List.mem_filter.1 he).1)
    have hle := ho.size_le
    exact UInt32.toNat_ofNat_of_lt' (by simp at hlt; exact Nat.lt_of_lt_of_le hlt hle)
  have hmap : (h.entries.map fun e => e.1.toNat).Pairwise (· < ·) := by
    rw [hnat]
    exact hsnd.sublist (List.filter_sublist.map Prod.snd)
  exact List.pairwise_map.1 hmap

theorem nodup_entries (ho : h.Orderly) : h.entries.Nodup := by
  refine (pairwise_entries ho).imp fun {e e'} hlt he => ?_
  rw [he] at hlt
  exact Nat.lt_irrefl _ hlt

/-- Where an owner is found, it is. -/
theorem mem_entries_of_indexOf? (ho : h.Orderly) (hi : h.indexOf? id = some index) :
    (index, id) ∈ h.entries :=
  (mem_entries ho).2 (ho.located.idAt? hi)

/-- As many owners are found as there are entries under which the owner is found. -/
theorem liveCount_eq (ho : h.Orderly) :
    h.liveCount = (h.entries.filter fun e => h.indexOf? e.2 = some e.1).length := by
  have hperm : (h.positions.entries.map Prod.swap).Perm
      (h.entries.filter fun e => h.indexOf? e.2 = some e.1) := by
    refine (List.perm_ext_iff_of_nodup ?_ ((nodup_entries ho).filter _)).2 fun e => ?_
    · refine List.Nodup.of_map Prod.snd ?_
      rw [List.map_map]
      exact ho.located.keys
    · rw [List.mem_filter, decide_eq_true_eq, List.mem_map]
      constructor
      · rintro ⟨p, hp, rfl⟩
        have hget : h.indexOf? p.1 = some p.2 := Assoc.get?_of_mem ho.located.keys hp
        exact ⟨mem_entries_of_indexOf? ho hget, hget⟩
      · rintro ⟨_, hget⟩
        exact ⟨(e.2, e.1), Assoc.mem_of_get? hget, rfl⟩
  rw [← hperm.length_eq, List.length_map]
  rfl

/-- Everything that is said about the owners by position is said by owner too. -/
def Found (h : Hierarchy) : Prop :=
  ∀ e ∈ h.entries, h.indexOf? e.2 = some e.1

theorem found_empty : empty.Found := by
  simp [Found, entries, empty]

/-- The number of owners that are found is the number of entries if and only if every entry is
found. -/
theorem liveCount_eq_iff (ho : h.Orderly) : h.liveCount = h.entries.length ↔ h.Found := by
  rw [liveCount_eq ho, List.length_filter_eq_length_iff]
  simp only [decide_eq_true_eq, Found]

/-- A deleted owner stays at the positions where it was not found. -/
theorem idAt?_delete_self (ho : h.Orderly) :
    (after (delete (ε := ε) id) h).idAt? index = some id ↔
      (index, id) ∈ h.entries ∧ h.indexOf? id ≠ some index := by
  rw [idAt?_delete ho.located, mem_entries ho]
  by_cases hi : h.indexOf? id = some index
  · simp [hi]
  · simp [hi]

theorem vacated_iff (ho : h.Orderly) :
    (∀ id i, (after (delete (ε := ε) id) h).idAt? i ≠ some id) ↔ h.Found := by
  simp only [ne_eq, idAt?_delete_self ho, not_and, not_not, Found, Prod.forall]
  exact forall_comm

theorem found_delete (ho : h.Orderly) (hf : h.Found) (id : ObjectId) :
    (after (delete (ε := Failure DbError) id) h).Found := by
  have ho' := ho.perform (.delete id)
  rw [after_perform_delete] at ho'
  intro e he
  rw [mem_entries ho', idAt?_delete ho.located] at he
  rw [indexOf?_delete]
  by_cases hi : h.indexOf? id = some e.1
  · rw [if_pos hi] at he
    contradiction
  · rw [if_neg hi] at he
    have hfound := hf e ((mem_entries ho).2 he)
    have hx : e.2 ≠ id := by
      rintro rfl
      exact hi hfound
    rw [if_neg hx, hfound]

/-- Giving a position keeps every entry found unless the owner was at another one. -/
theorem Gives.found_iff (ho : h.Orderly) (ho' : h'.Orderly) (hf : h.Found)
    (hg : Gives index id h h') : h'.Found ↔ ∀ e ∈ h.entries, e.2 = id → e.1 = index := by
  constructor
  · intro hf' e he hid
    by_contra hne
    have hat : h'.idAt? e.1 = some e.2 := by
      rw [hg.idAt?, if_neg hne]
      exact (mem_entries ho).1 he
    have hfound := hf' e ((mem_entries ho').2 hat)
    rw [hg.indexOf?, if_pos hid] at hfound
    exact hne (Option.some.inj hfound).symm
  · intro hone e he
    rw [mem_entries ho', hg.idAt?] at he
    by_cases hi : e.1 = index
    · rw [if_pos hi] at he
      rw [hg.indexOf?, if_pos (Option.some.inj he).symm, hi]
    · rw [if_neg hi] at he
      have hmem := (mem_entries ho).2 he
      have hfound := hf e hmem
      rw [hg.indexOf?, if_neg fun hid => hi (hone e hmem hid), hfound,
        if_neg fun h' => hi (Option.some.inj h')]

/-- A request keeps every entry found if and only if it gives no owner a second position. -/
theorem found_perform_iff (ho : h.Orderly) (hf : h.Found) (q : Request) :
    (after q.perform h).Found ↔ ¬ q.Repeats h := by
  have ho' := ho.perform q
  rcases perform_cases ho q with ⟨hq, f, hr⟩ | ⟨index, id, h', hq, hr, hg⟩ | ⟨id, rfl⟩ | rfl
  · rw [after_error hr]
    simp [hf, Request.Repeats, hq]
  · rw [after_ok hr] at ho' ⊢
    rw [hg.found_iff ho ho' hf]
    simp only [Request.Repeats, hq, Option.mem_def, Option.some.injEq, exists_eq_left', ne_eq,
      not_exists, not_and, not_not]
  · rw [after_perform_delete]
    simp [found_delete ho hf, Request.Repeats, Request.gives?]
  · exact ⟨fun _ => by simp [Request.Repeats, Request.gives?], fun _ => found_empty⟩

/-- Every entry is found at every point of a history if and only if the history gives no owner
a second position. -/
theorem found_history_iff (ho : h.Orderly) (hf : h.Found) (l : List Request) :
    (∀ n, (run (l.take n) h).Found) ↔ Single h l := by
  induction l generalizing h with
  | nil => simp [run, Single, hf]
  | cons q l ih =>
    have hstep := found_perform_iff ho hf q
    constructor
    · intro hall
      have hq : (after q.perform h).Found := hall 1
      exact ⟨hstep.1 hq, (ih (ho.perform q) hq).1 fun n => hall (n + 1)⟩
    · rintro ⟨hq, hl⟩ n
      cases n with
      | zero => exact hf
      | succ n => exact (ih (ho.perform q) (hstep.2 hq)).2 hl n

/-- The entries hold every owner that is found, under the position where it is found, and as
many owners are found as have such an entry.  To delete an owner leaves it where it was not
found.  So the number of owners is the number of entries, every entry is found, and a deleted
owner is at no position, each of these if and only if the others; and all of them at every
point of a history if and only if the history gives no owner a position while it is at another
one. -/
theorem entries_match_positions (l : List Request) :
    let h := run l empty
    (∀ id i, h.indexOf? id = some i → (i, id) ∈ h.entries) ∧
      h.liveCount = (h.entries.filter fun e => h.indexOf? e.2 = some e.1).length ∧
      (∀ id i, (after (delete (ε := DbError) id) h).idAt? i = some id ↔
        (i, id) ∈ h.entries ∧ h.indexOf? id ≠ some i) ∧
      List.TFAE [
        h.liveCount = h.entries.length,
        ∀ e ∈ h.entries, h.indexOf? e.2 = some e.1,
        ∀ id i, (after (delete (ε := DbError) id) h).idAt? i ≠ some id] ∧
      ((∀ n, ∀ e ∈ (run (l.take n) empty).entries,
        (run (l.take n) empty).indexOf? e.2 = some e.1) ↔ Single empty l) := by
  intro h
  have ho : h.Orderly := orderly_empty.run l
  refine ⟨fun id i => mem_entries_of_indexOf? ho, liveCount_eq ho, fun id i => idAt?_delete_self ho,
    ?_, found_history_iff orderly_empty found_empty l⟩
  tfae_have 1 ↔ 2 := liveCount_eq_iff ho
  tfae_have 3 ↔ 2 := vacated_iff ho
  tfae_finish

/-- A history that deletes an owner and takes it in again, fills a position far up, and puts
another owner there. -/
theorem entries_match_positions_taken_in_again :
    let l : List Request := [.insert ⟨7⟩, .delete ⟨7⟩, .insert ⟨7⟩, .place ⟨5⟩ ⟨8⟩, .place ⟨5⟩ ⟨9⟩,
      .insert ⟨8⟩]
    let h := run l empty
    h.entries = [(⟨2⟩, ⟨7⟩), (⟨5⟩, ⟨9⟩), (⟨6⟩, ⟨8⟩)] ∧ h.liveCount = h.entries.length ∧
      ∀ id i, (after (delete (ε := DbError) id) h).idAt? i ≠ some id := by
  intro l h
  obtain ⟨_, _, _, htfae, hall⟩ := entries_match_positions l
  have hfound := hall.2 (by decide +kernel) l.length
  exact ⟨by decide +kernel, (htfae.out 1 0).1 hfound, (htfae.out 1 2).1 hfound⟩

/-- An owner that is given a second position and deleted is still at the first. -/
theorem deleted_owner_still_placed :
    let h := run [.insert ⟨7⟩, .insert ⟨7⟩] empty
    let h' := after (delete (ε := DbError) ⟨7⟩) h
    h.liveCount ≠ h.entries.length ∧ h'.indexOf? ⟨7⟩ = none ∧ h'.idAt? ⟨1⟩ = some ⟨7⟩ ∧
      h'.liveCount = 0 ∧ h'.entries = [(⟨1⟩, ⟨7⟩)] := by
  decide +kernel

end Hierarchy
end DesignStore
