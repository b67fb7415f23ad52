/-
Interning names.

A name gets the next position when it is first interned and keeps it.  A symbol has the users that
were added to it since, each once, in the order in which they were first added.  So a table is
determined by the names that were interned and by the users that were added, and in each history
names and symbols stand for each other (`interns_stably`).

A symbol is a position cut to 32 bits.  It loses nothing as long as there are no more names than
words; past that, new names get symbols that stand for other names.

The names and the users may also be kept in two lists, of which each grows by itself (`Columns`).
They stay aligned: what the two lists answer is what the table answers.
-/
import DesignStore.Proofs.Operation
import DesignStore.Table.Symbols

namespace DesignStore

/-- A symbol gets a user, unless it has it. -/
def Symbol.use (id : ObjectId) (s : Symbol) : Symbol :=
  if id ∈ s.users then s else { s with users := s.users ++ [id] }

theorem Symbol.name_use (id : ObjectId) (s : Symbol) : (s.use id).name = s.name := by
  unfold use
  split <;> rfl

namespace SymbolIndex

theorem mk_toNat (i : SymbolIndex) : (⟨(i.val : Nat)⟩ : SymbolIndex) = i :=
  congrArg mk UInt32.ofNat_toNat

theorem toNat_mk {n : Nat} (h : n < UInt32.size) : ((⟨n⟩ : SymbolIndex).val : Nat) = n :=
  UInt32.toNat_ofNat_of_lt' h

theorem toNat_inj {i j : SymbolIndex} : (i.val : Nat) = j.val ↔ i = j :=
  UInt32.toNat_inj.trans ⟨fun h => congrArg mk h, fun h => congrArg val h⟩

end SymbolIndex

namespace SymbolTable

variable {ε : Type} {t : SymbolTable} {name : String} {i : SymbolIndex} {id : ObjectId}

/-- What can be asked of a table. -/
inductive Request where
  | intern (name : String)
  | addReference (i : SymbolIndex) (id : ObjectId)
  deriving DecidableEq, Repr

def Request.perform : Request → SymbolTable → SymbolTable
  | .intern name => after (SymbolTable.intern (ε := Empty) name)
  | .addReference i id => after (SymbolTable.addReference (ε := Empty) i id)

/-- The table that a history of requests makes of an empty one. -/
def run (l : List Request) : SymbolTable :=
  l.foldl (fun t q => q.perform t) {}

theorem run_concat (l : List Request) (q : Request) : run (l ++ [q]) = q.perform (run l) :=
  List.foldl_concat ..

/-- The names that were interned in a history, in the order in which they first were. -/
def interned (l : List Request) : List String :=
  (l.filterMap fun
    | .intern name => some name
    | .addReference _ _ => none).eraseDups

/-- A user is added to a symbol that is in the table. -/
def Request.adds? : Request → SymbolTable → Option (SymbolIndex × ObjectId)
  | .intern _, _ => none
  | .addReference i id, t => if (i.val : Nat) < t.size then some (i, id) else none

/-- What is added to symbols by requests, one after the other. -/
def additions : SymbolTable → List Request → List (SymbolIndex × ObjectId)
  | _, [] => []
  | t, q :: l => (q.adds? t).toList ++ additions (q.perform t) l

/-- The users that were added in a history to the symbol at a position, in the order in which they
first were. -/
def added (l : List Request) (n : Nat) : List ObjectId :=
  (((additions {} l).filter fun a => (a.1.val : Nat) = n).map (·.2)).eraseDups

/-! ## One request -/

theorem intern_of_some (h : t.find? name = some i) :
    (intern name : EStateM ε SymbolTable _) t = .ok i t := by
  simp only [intern, h]

theorem intern_of_none (h : t.find? name = none) :
    (intern name : EStateM ε SymbolTable _) t =
      .ok ⟨t.size⟩ { symbols := t.symbols.push { name } } := by
  simp only [intern, h]

theorem addReference_of_lt (h : (i.val : Nat) < t.size) (id : ObjectId) :
    (addReference i id : EStateM ε SymbolTable _) t =
      .ok true { symbols := t.symbols.modify i.val (Symbol.use id) } :=
  if_pos h

theorem addReference_of_not_lt (h : ¬ (i.val : Nat) < t.size) (id : ObjectId) :
    (addReference i id : EStateM ε SymbolTable _) t = .ok false t :=
  if_neg h

theorem find?_eq_none_iff : t.find? name = none ↔ ∀ s ∈ t.symbols, s.name ≠ name := by
  simp [find?]

/-! ## Histories -/

theorem additions_concat (t : SymbolTable) (l : List Request) (q : Request) :
    additions t (l ++ [q]) =
      additions t l ++ (q.adds? (l.foldl (fun t q => q.perform t) t)).toList := by
  induction l generalizing t with
  | nil => simp [additions]
  | cons p l ih => simp only [List.cons_append, additions, ih, List.foldl_cons, List.append_assoc]

theorem interned_intern (l : List Request) (name : String) :
    interned (l ++ [Request.intern name]) =
      if name ∈ interned l then interned l else interned l ++ [name] := by
  simp only [interned, List.filterMap_append, List.filterMap_cons, List.filterMap_nil,
    eraseDups_concat, List.mem_eraseDups]

theorem interned_addReference (l : List Request) (i : SymbolIndex) (id : ObjectId) :
    interned (l ++ [Request.addReference i id]) = interned l := by
  simp only [interned, List.filterMap_append, List.filterMap_cons, List.filterMap_nil,
    List.append_nil]

theorem nodup_interned (l : List Request) : (interned l).Nodup :=
  nodup_eraseDups _

/-- Only an addition to a symbol that is there changes the users, and those of that symbol only. -/
theorem added_concat (l : List Request) (q : Request) (n : Nat) :
    added (l ++ [q]) n = match q.adds? (run l) with
      | none => added l n
      | some (i, id) =>
        if (i.val : Nat) = n ∧ id ∉ added l n then added l n ++ [id] else added l n := by
  rw [added, additions_concat]
  show (List.map _ (List.filter _ (_ ++ (q.adds? (run l)).toList))).eraseDups = _
  cases q.adds? (run l) with
  | none => rw [Option.toList_none, List.append_nil, added]
  | some p =>
    obtain ⟨i, id⟩ := p
    by_cases hi : (i.val : Nat) = n
    · simp only [Option.toList_some, List.filter_append, List.filter_singleton, hi, decide_true,
        List.map_append, List.map_singleton, eraseDups_concat, true_and, added,
        List.mem_eraseDups, ite_not, cond_true]
    · simp [hi, added]

/-- A history accounts for the table it makes. -/
structure Recounts (l : List Request) : Prop where
  getElem? : ∀ n, (run l).symbols[n]? =
    (interned l)[n]?.map fun name => ({ name, users := added l n } : Symbol)
  /-- Nothing was added to symbols that are still to come. -/
  added_of_le : ∀ n, (interned l).length ≤ n → added l n = []

namespace Recounts

variable {l : List Request}

theorem names (h : Recounts l) : (run l).symbols.toList.map (·.name) = interned l := by
  refine List.ext_getElem? fun n => ?_
  rw [List.getElem?_map, Array.getElem?_toList, h.getElem?, Option.map_map]
  exact congrFun Option.map_id _

theorem size (h : Recounts l) : (run l).size = (interned l).length := by
  rw [← h.names, List.length_map, Array.length_toList, SymbolTable.size]

theorem name? (h : Recounts l) (i : SymbolIndex) :
    (run l).name? i = (interned l)[(i.val : Nat)]? := by
  rw [SymbolTable.name?, h.getElem?, Option.map_map]
  exact congrFun Option.map_id _

theorem users (h : Recounts l) (i : SymbolIndex) : (run l).users i = added l i.val := by
  rw [SymbolTable.users, h.getElem?]
  by_cases hi : (i.val : Nat) < (interned l).length
  · rw [List.getElem?_eq_getElem hi]
    rfl
  · rw [List.getElem?_eq_none (Nat.not_lt.1 hi), h.added_of_le _ (Nat.not_lt.1 hi)]
    rfl

/-- A name is found where it stands among the names, which are there once each. -/
theorem findIdx?_eq_some_iff (h : Recounts l) {n : Nat} :
    (run l).symbols.findIdx? (·.name = name) = some n ↔ (interned l)[n]? = some name := by
  have hname (n : Nat) (hn : n < (run l).symbols.size) :
      (interned l)[n]? = some ((run l).symbols[n]).name := by
    rw [← h.names, List.getElem?_map, Array.getElem?_toList, Array.getElem?_eq_getElem hn,
      Option.map_some]
  rw [Array.findIdx?_eq_some_iff_getElem]
  constructor
  · rintro ⟨hlt, hn, _⟩
    rw [hname n hlt, of_decide_eq_true hn]
  · intro hn
    have hlt : n < (run l).symbols.size := by
      rw [← SymbolTable.size, h.size]
      exact (List.getElem?_eq_some_iff.1 hn).1
    have hat : ((run l).symbols[n]).name = name :=
      Option.some_inj.1 ((hname n hlt).symm.trans hn)
    refine ⟨hlt, decide_eq_true hat, fun j hj hj' => Nat.ne_of_lt hj ?_⟩
    have hat' := hname j (Nat.lt_trans hj hlt)
    rw [of_decide_eq_true hj'] at hat'
    exact (List.getElem?_inj (List.getElem?_eq_some_iff.1 hat').1 (nodup_interned l)).1
      (hat'.trans hn.symm)

theorem find?_eq_some_iff (h : Recounts l) :
    (run l).find? name = some i ↔ ∃ n : Nat, (interned l)[n]? = some name ∧ ⟨n⟩ = i := by
  simp only [find?, Option.map_eq_some_iff, h.findIdx?_eq_some_iff]

/-- A symbol that has a name is the symbol of that name. -/
theorem find?_of_name? (h : Recounts l) (hi : (run l).name? i = some name) :
    (run l).find? name = some i :=
  h.find?_eq_some_iff.2 ⟨i.val, (h.name? i).symm.trans hi, i.mk_toNat⟩

/-- The symbol of a name has that name, if there are no more names than words. -/
theorem name?_of_find? (h : Recounts l) (hsize : (run l).size ≤ UInt32.size)
    (hi : (run l).find? name = some i) : (run l).name? i = some name := by
  obtain ⟨n, hn, rfl⟩ := h.find?_eq_some_iff.1 hi
  have hlt : n < (run l).size := by
    rw [h.size]
    exact (List.getElem?_eq_some_iff.1 hn).1
  rw [h.name?, SymbolIndex.toNat_mk (Nat.lt_of_lt_of_le hlt hsize), hn]

theorem find?_eq_none_iff (h : Recounts l) : (run l).find? name = none ↔ name ∉ interned l := by
  rw [SymbolTable.find?_eq_none_iff, ← h.names, List.mem_map]
  simp only [Array.mem_toList_iff, not_exists, not_and, ne_eq]

/-! ### One more request -/

theorem intern (h : Recounts l) (name : String) : Recounts (l ++ [Request.intern name]) := by
  have hadded (n : Nat) : added (l ++ [Request.intern name]) n = added l n :=
    added_concat l _ n
  have hrun : run (l ++ [Request.intern name]) =
      after (SymbolTable.intern (ε := Empty) name) (run l) := run_concat l _
  cases hf : (run l).find? name with
  | some i =>
    have hmem : name ∈ interned l := by
      rw [← not_not (a := name ∈ interned l), ← h.find?_eq_none_iff, hf]
      simp
    have hold : run (l ++ [Request.intern name]) = run l :=
      hrun.trans (after_ok (intern_of_some hf))
    have hinterned : interned (l ++ [Request.intern name]) = interned l :=
      (interned_intern l name).trans (if_pos hmem)
    exact ⟨fun n => by rw [hold, hinterned, hadded, h.getElem?],
      fun i hi => by rw [hadded, h.added_of_le i (hinterned ▸ hi)]⟩
  | none =>
    have hmem : name ∉ interned l := h.find?_eq_none_iff.1 hf
    have hnew : (run (l ++ [Request.intern name])).symbols = (run l).symbols.push { name } := by
      rw [hrun, after_ok (intern_of_none hf)]
    have hinterned : interned (l ++ [Request.intern name]) = interned l ++ [name] :=
      (interned_intern l name).trans (if_neg hmem)
    refine ⟨fun n => ?_, fun i hi => ?_⟩
    · rw [hnew, hinterned, hadded, Array.getElem?_push, h.getElem?]
      have hsize : (run l).symbols.size = (interned l).length := h.size
      split
      · rename_i hn
        rw [hn, hsize, List.getElem?_concat_length, Option.map_some, h.added_of_le _ (Nat.le_refl _)]
      · rename_i hn
        rw [hsize] at hn
        by_cases hlt : n < (interned l).length
        · rw [List.getElem?_append_left hlt]
        · rw [List.getElem?_eq_none (Nat.not_lt.1 hlt), List.getElem?_eq_none]
          rw [List.length_append, List.length_singleton]
          omega
    · rw [hinterned, List.length_append] at hi
      rw [hadded, h.added_of_le i (by omega)]

theorem addReference (h : Recounts l) (i : SymbolIndex) (id : ObjectId) :
    Recounts (l ++ [Request.addReference i id]) := by
  have hrun : run (l ++ [Request.addReference i id]) =
      after (SymbolTable.addReference (ε := Empty) i id) (run l) :=
    run_concat l _
  have hinterned : interned (l ++ [Request.addReference i id]) = interned l :=
    interned_addReference l i id
  by_cases hi : (i.val : Nat) < (run l).size
  · have hadded (n : Nat) : added (l ++ [Request.addReference i id]) n =
        if (i.val : Nat) = n ∧ id ∉ added l n then added l n ++ [id] else added l n := by
      rw [added_concat, Request.adds?, if_pos hi]
    have hnew : (run (l ++ [Request.addReference i id])).symbols =
        (run l).symbols.modify i.val (Symbol.use id) := by
      rw [hrun, after_ok (addReference_of_lt hi id)]
    refine ⟨fun n => ?_, fun n hn => ?_⟩
    · rw [hnew, hinterned, hadded, Array.getElem?_modify, h.getElem?]
      cases (interned l)[n]? with
      | none => simp
      | some name =>
        by_cases hn : (i.val : Nat) = n
        · subst hn
          by_cases hid : id ∈ added l i.val <;> simp [Symbol.use, hid]
        · simp [hn]
    · rw [hinterned] at hn
      rw [hadded, if_neg, h.added_of_le n hn]
      rintro ⟨rfl, _⟩
      rw [h.size] at hi
      omega
  · have hadded (n : Nat) : added (l ++ [Request.addReference i id]) n = added l n := by
      rw [added_concat, Request.adds?, if_neg hi]
    have hold : run (l ++ [Request.addReference i id]) = run l :=
      hrun.trans (after_ok (addReference_of_not_lt hi id))
    exact ⟨fun n => by rw [hold, hinterned, hadded, h.getElem?],
      fun n hn => by rw [hadded, h.added_of_le n (hinterned ▸ hn)]⟩

end Recounts

theorem recounts_run (l : List Request) : Recounts l := by
  induction l using List.reverseRecOn with
  | nil => exact ⟨fun _ => rfl, fun _ _ => rfl⟩
  | append_singleton l q ih =>
    cases q with
    | intern name => exact ih.intern name
    | addReference i id => exact ih.addReference i id

/-! ## Two lists -/

/-- The names and the users of a table in two lists, each of which grows by itself. -/
structure Columns where
  names : List String := []
  users : List (List ObjectId) := []
  deriving DecidableEq, Repr

namespace Columns

def find? (c : Columns) (name : String) : Option SymbolIndex :=
  (c.names.idxOf? name).map fun n : Nat => ⟨n⟩

def intern (name : String) : EStateM ε Columns SymbolIndex := fun c =>
  match c.find? name with
  | some i => .ok i c
  | none => .ok ⟨c.names.length⟩ { names := c.names ++ [name], users := c.users ++ [[]] }

def addReference (i : SymbolIndex) (id : ObjectId) : EStateM ε Columns Bool := fun c =>
  match c.users[(i.val : Nat)]? with
  | some ids =>
    .ok true { c with users := if id ∈ ids then c.users else c.users.set i.val (ids ++ [id]) }
  | none => .ok false c

def memory (c : Columns) : Nat :=
  total String.utf8ByteSize c.names + total (fun ids => 8 * ids.length) c.users

def perform : Request → Columns → Columns
  | .intern name => after (intern (ε := Empty) name)
  | .addReference i id => after (addReference (ε := Empty) i id)

/-- The lists that a history of requests makes of empty ones. -/
def run (l : List Request) : Columns :=
  l.foldl (fun c q => perform q c) {}

end Columns

/-- A table taken apart. -/
def columns (t : SymbolTable) : Columns where
  names := t.symbols.toList.map (·.name)
  users := t.symbols.toList.map (·.users)

theorem length_names (t : SymbolTable) : t.columns.names.length = t.size := by
  simp [columns, size]

theorem getElem?_names (t : SymbolTable) (n : Nat) :
    t.columns.names[n]? = t.symbols[n]?.map (·.name) := by
  rw [columns, List.getElem?_map, Array.getElem?_toList]

theorem name?_eq_names (t : SymbolTable) (i : SymbolIndex) :
    t.name? i = t.columns.names[(i.val : Nat)]? :=
  (getElem?_names t i.val).symm

theorem getElem?_users (t : SymbolTable) (n : Nat) :
    t.columns.users[n]? = t.symbols[n]?.map (·.users) := by
  rw [columns, List.getElem?_map, Array.getElem?_toList]

theorem memory_columns (t : SymbolTable) : t.columns.memory = t.memory := by
  simp only [columns, Columns.memory, memory]
  induction t.symbols.toList with
  | nil => rfl
  | cons s l ih =>
    simp only [List.map_cons, total] at ih ⊢
    omega

theorem find?_columns (t : SymbolTable) (name : String) :
    t.columns.find? name = t.find? name := by
  obtain ⟨⟨l⟩⟩ := t
  simp only [Columns.find?, columns, find?, List.idxOf?, List.findIdx?_map,
    List.findIdx?_toArray]
  rfl

theorem columns_push (t : SymbolTable) (name : String) :
    ({ symbols := t.symbols.push { name } } : SymbolTable).columns =
      { names := t.columns.names ++ [name], users := t.columns.users ++ [[]] } := by
  simp [columns]

/-- A symbol that gets a user keeps its name. -/
theorem names_modify (t : SymbolTable) (n : Nat) (id : ObjectId) :
    ({ symbols := t.symbols.modify n (Symbol.use id) } : SymbolTable).columns.names =
      t.columns.names := by
  refine List.ext_getElem? fun j => ?_
  rw [getElem?_names, getElem?_names, Array.getElem?_modify]
  by_cases hj : n = j
  · rw [if_pos hj, Option.map_map]
    exact congrFun (congrArg Option.map (funext fun s => s.name_use id)) _
  · rw [if_neg hj]

/-- The lists do and answer what the table does when a name is interned. -/
theorem intern_columns (t : SymbolTable) (name : String) :
    after (Columns.intern (ε := ε) name) t.columns =
        (after (intern (ε := ε) name) t).columns ∧
      answer (Columns.intern (ε := ε) name) t.columns = answer (intern (ε := ε) name) t := by
  cases hf : t.find? name with
  | some i =>
    have hlists : (Columns.intern name : EStateM ε Columns _) t.columns = .ok i t.columns := by
      simp only [Columns.intern, find?_columns, hf]
    exact ⟨by rw [after_ok hlists, after_ok (intern_of_some hf)],
      by rw [answer_ok hlists, answer_ok (intern_of_some hf)]⟩
  | none =>
    have hlists : (Columns.intern name : EStateM ε Columns _) t.columns =
        .ok ⟨t.size⟩ ({ symbols := t.symbols.push { name } } : SymbolTable).columns := by
      simp only [Columns.intern, find?_columns, hf, length_names, columns_push]
    exact ⟨by rw [after_ok hlists, after_ok (intern_of_none hf)],
      by rw [answer_ok hlists, answer_ok (intern_of_none hf)]⟩

theorem users_modify (t : SymbolTable) (h : (i.val : Nat) < t.size) (id : ObjectId) :
    ({ symbols := t.symbols.modify i.val (Symbol.use id) } : SymbolTable).columns.users =
      if id ∈ t.users i then t.columns.users
      else t.columns.users.set i.val (t.users i ++ [id]) := by
  refine List.ext_getElem? fun n => ?_
  rw [getElem?_users, Array.getElem?_modify]
  by_cases hn : (i.val : Nat) = n
  · subst hn
    obtain ⟨s, hs⟩ : ∃ s, t.symbols[(i.val : Nat)]? = some s := ⟨_, Array.getElem?_eq_getElem h⟩
    have hat : t.columns.users[(i.val : Nat)]? = some s.users := by
      rw [getElem?_users, hs, Option.map_some]
    have husers : t.users i = s.users := by
      rw [users, hs]
      rfl
    rw [if_pos rfl, hs, husers, Option.map_some, Option.map_some, Symbol.use]
    by_cases hid : id ∈ s.users
    · rw [if_pos hid, if_pos hid, hat]
    · rw [if_neg hid, if_neg hid, List.getElem?_set_self (List.getElem?_eq_some_iff.1 hat).1]
  · have hset (ids : List ObjectId) :
        (t.columns.users.set i.val ids)[n]? = t.columns.users[n]? :=
      List.getElem?_set_ne hn
    rw [if_neg hn, apply_ite (fun us : List (List ObjectId) => us[n]?), hset, ite_self,
      getElem?_users]

theorem columns_modify (t : SymbolTable) (h : (i.val : Nat) < t.size) (id : ObjectId) :
    ({ symbols := t.symbols.modify i.val (Symbol.use id) } : SymbolTable).columns =
      { names := t.columns.names
        users := if id ∈ t.users i then t.columns.users
          else t.columns.users.set i.val (t.users i ++ [id]) } :=
  congrArg₂ Columns.mk (names_modify t i.val id) (users_modify t h id)

/-- The lists do and answer what the table does when a user is added. -/
theorem addReference_columns (t : SymbolTable) (i : SymbolIndex) (id : ObjectId) :
    after (Columns.addReference (ε := ε) i id) t.columns =
        (after (addReference (ε := ε) i id) t).columns ∧
      answer (Columns.addReference (ε := ε) i id) t.columns =
        answer (addReference (ε := ε) i id) t := by
  by_cases hi : (i.val : Nat) < t.size
  · have hat : t.columns.users[(i.val : Nat)]? = some (t.users i) := by
      rw [getElem?_users, users, Array.getElem?_eq_getElem hi]
      rfl
    have hlists : (Columns.addReference i id : EStateM ε Columns _) t.columns =
        .ok true ({ symbols := t.symbols.modify i.val (Symbol.use id) } : SymbolTable).columns := by
      simp only [Columns.addReference, hat, columns_modify t hi id]
    exact ⟨by rw [after_ok hlists, after_ok (addReference_of_lt hi id)],
      by rw [answer_ok hlists, answer_ok (addReference_of_lt hi id)]⟩
  · have hat : t.columns.users[(i.val : Nat)]? = none := by
      rw [getElem?_users, Array.getElem?_eq_none (Nat.not_lt.1 hi), Option.map_none]
    have hlists : (Columns.addReference i id : EStateM ε Columns _) t.columns =
        .ok false t.columns := by
      simp only [Columns.addReference, hat]
    exact ⟨by rw [after_ok hlists, after_ok (addReference_of_not_lt hi id)],
      by rw [answer_ok hlists, answer_ok (addReference_of_not_lt hi id)]⟩

theorem columns_run (l : List Request) : Columns.run l = (run l).columns := by
  induction l using List.reverseRecOn with
  | nil => rfl
  | append_singleton l q ih =>
    rw [run_concat, Columns.run, List.foldl_concat, ← Columns.run, ih]
    cases q with
    | intern name => exact (intern_columns (run l) name).1
    | addReference i id => exact (addReference_columns (run l) i id).1

/-! ## All histories -/

theorem answer_intern (t : SymbolTable) (name : String) :
    answer (intern (ε := ε) name) t = .ok ((t.find? name).getD ⟨t.size⟩) := by
  cases hf : t.find? name with
  | some i => exact answer_ok (intern_of_some hf)
  | none => exact answer_ok (intern_of_none hf)

theorem interned_prefix (l l' : List Request) : interned l <+: interned (l ++ l') := by
  induction l' using List.reverseRecOn with
  | nil => rw [List.append_nil]
  | append_singleton l' q ih =>
    rw [← List.append_assoc]
    refine ih.trans ?_
    cases q with
    | intern name =>
      rw [interned_intern]
      split
      · exact List.prefix_rfl
      · exact List.prefix_append ..
    | addReference i id => rw [interned_addReference]

/-- A name keeps its position. -/
theorem find?_run_append {l : List Request} (h : (run l).find? name = some i) (l' : List Request) :
    (run (l ++ l')).find? name = some i := by
  obtain ⟨n, hat, hi⟩ := (recounts_run l).find?_eq_some_iff.1 h
  refine (recounts_run _).find?_eq_some_iff.2 ⟨n, ?_, hi⟩
  obtain ⟨new, hnew⟩ := interned_prefix l l'
  rwa [← hnew, List.getElem?_append_left (List.getElem?_eq_some_iff.1 hat).1]

/-- A name that is interned is found at the position that was answered. -/
theorem find?_run_intern (l : List Request) (name : String) :
    (run (l ++ [Request.intern name])).find? name =
      some (((run l).find? name).getD ⟨(run l).size⟩) := by
  cases hf : (run l).find? name with
  | some i => exact find?_run_append hf _
  | none =>
    have hnew : name ∉ interned l := (recounts_run l).find?_eq_none_iff.1 hf
    refine (recounts_run _).find?_eq_some_iff.2 ⟨(run l).size, ?_, rfl⟩
    rw [interned_intern, if_neg hnew, (recounts_run l).size, List.getElem?_concat_length]

theorem Recounts.users_columns {l : List Request} (h : Recounts l) :
    (run l).columns.users = (List.range (run l).size).map (added l) := by
  refine List.ext_getElem? fun n => ?_
  rw [getElem?_users, h.getElem?, List.getElem?_map, h.size]
  by_cases hn : n < (interned l).length
  · rw [List.getElem?_eq_getElem hn, List.getElem?_range hn]
    rfl
  · rw [List.getElem?_eq_none (Nat.not_lt.1 hn),
      List.getElem?_eq_none (List.length_range ▸ Nat.not_lt.1 hn)]
    rfl

/-- In any history names and symbols stand for each other: a symbol that has a name is found for
it, and a name that was interned is had by the symbol that is found, as long as there are no more
names than words of 32 bits.  The symbols that have a name are those below the number of names.  To
intern a name that is there changes nothing, a new name gets the next position, and ever after a
name that was interned is answered the symbol it was answered first.  A symbol has the users that
were added to it, each once, in the order in which they were first added; it is left alone by what
is asked of other symbols.  To add a user is answered whether the symbol is there, and does nothing
where it is not.  Where names and users are kept in two lists, these are equally long, hold the
names that were interned and the users of each, answer what the table answers, and take as much
memory: what the names take, and eight bytes for each user of each of them. -/
theorem interns_stably (l : List Request) :
    let t := run l
    ((∀ name i, t.name? i = some name → t.find? name = some i) ∧
      (t.size ≤ UInt32.size → ∀ name i, t.find? name = some i ↔ t.name? i = some name) ∧
      (∀ name, (t.find? name).isSome = true ↔ name ∈ interned l) ∧
      (∀ i, (t.name? i).isSome = true ↔ (i.val : Nat) < t.size) ∧
      t.size = (interned l).length) ∧
    (∀ name,
      (name ∈ interned l → ∃ i, intern (ε := ε) name t = .ok i t) ∧
      (name ∉ interned l → answer (intern (ε := ε) name) t = .ok ⟨t.size⟩) ∧
      ∀ l', answer (intern (ε := ε) name) (run (l ++ .intern name :: l')) =
        answer (intern (ε := ε) name) t) ∧
    (∀ i : SymbolIndex,
      t.users i = added l i.val ∧
      (∀ name, (run (l ++ [.intern name])).users i = t.users i) ∧
      (∀ j id, j ≠ i → (run (l ++ [.addReference j id])).users i = t.users i) ∧
      ∀ id, answer (addReference (ε := ε) i id) t = .ok (decide ((i.val : Nat) < t.size)) ∧
        (t.size ≤ i.val → after (addReference (ε := ε) i id) t = t)) ∧
    t.memory = total String.utf8ByteSize (interned l) +
      total (fun n => 8 * (added l n).length) (List.range t.size) ∧
    let c := Columns.run l
    c.users.length = c.names.length ∧
      (c.names = interned l ∧ c.users = (List.range t.size).map (added l)) ∧
      (∀ i : SymbolIndex, c.names[(i.val : Nat)]? = t.name? i ∧
        c.users[(i.val : Nat)]?.getD [] = t.users i) ∧
      (∀ i id, answer (Columns.addReference (ε := ε) i id) c =
        answer (addReference (ε := ε) i id) t) ∧
      (∀ name, c.find? name = t.find? name ∧
        answer (Columns.intern (ε := ε) name) c = answer (intern (ε := ε) name) t) ∧
      c.memory = t.memory := by
  intro t
  have h : Recounts l := recounts_run l
  have hfound (name : String) : (t.find? name).isSome = true ↔ name ∈ interned l := by
    rw [← not_not (a := name ∈ interned l), ← h.find?_eq_none_iff, Option.isSome_iff_ne_none]
  refine ⟨⟨fun name i => h.find?_of_name?, fun hsize name i =>
      ⟨h.name?_of_find? hsize, h.find?_of_name?⟩, hfound, fun i => ?_, h.size⟩,
    fun name => ⟨fun hn => ?_, fun hn => ?_, fun l' => ?_⟩, fun i => ⟨h.users i, fun name => ?_,
      fun j id hj => ?_, fun id => ⟨?_, fun hi => ?_⟩⟩, ?_, ?_⟩
  · rw [h.name?, h.size, Option.isSome_iff_ne_none, ne_eq, List.getElem?_eq_none_iff, Nat.not_le]
  · obtain ⟨i, hi⟩ := Option.isSome_iff_exists.1 ((hfound name).2 hn)
    exact ⟨i, intern_of_some hi⟩
  · exact answer_ok (intern_of_none (h.find?_eq_none_iff.2 hn))
  · have hkeeps := find?_run_append (find?_run_intern l name) l'
    rw [List.append_assoc, List.singleton_append] at hkeeps
    rw [answer_intern, answer_intern, hkeeps, Option.getD_some]
  · rw [h.users, (recounts_run _).users]
    exact added_concat l _ _
  · rw [h.users, (recounts_run _).users, added_concat, Request.adds?]
    by_cases hlt : (j.val : Nat) < (run l).size
    · simp only [if_pos hlt, SymbolIndex.toNat_inj, hj, false_and, if_false]
    · simp only [if_neg hlt]
  · by_cases hlt : (i.val : Nat) < t.size
    · rw [answer_ok (addReference_of_lt hlt id), decide_eq_true hlt]
    · rw [answer_ok (addReference_of_not_lt hlt id), decide_eq_false hlt]
  · exact after_ok (addReference_of_not_lt (Nat.not_lt.2 hi) id)
  · rw [← memory_columns, Columns.memory, h.users_columns, total_map fun _ => rfl]
    exact congrArg (total _ · + _) h.names
  · rw [columns_run]
    refine ⟨by simp [columns], ⟨h.names, h.users_columns⟩,
      fun i => ⟨(name?_eq_names t i).symm, ?_⟩, fun i id => (addReference_columns t i id).2,
      fun name => ⟨find?_columns t name, (intern_columns t name).2⟩, memory_columns t⟩
    rw [getElem?_users, users]

/-- A name is interned again, and a user is added to a symbol that is still to come and twice to
one that is there. -/
theorem interns_stably_again :
    let l : List Request :=
      [.intern "clk", .addReference ⟨1⟩ ⟨12⟩, .intern "rst", .addReference ⟨0⟩ ⟨10⟩,
        .addReference ⟨0⟩ ⟨11⟩, .intern "clk", .addReference ⟨0⟩ ⟨10⟩]
    let t := run l
    interned l = ["clk", "rst"] ∧ t.find? "rst" = some ⟨1⟩ ∧
      answer (intern (ε := Empty) "clk") t = .ok ⟨0⟩ ∧
      answer (intern (ε := Empty) "VDD") t = .ok ⟨2⟩ ∧
      t.users ⟨0⟩ = [⟨10⟩, ⟨11⟩] ∧ t.users ⟨1⟩ = [] ∧
      answer (addReference (ε := Empty) ⟨5⟩ ⟨10⟩) t = .ok false ∧ t.memory = 22 ∧
      answer (Columns.intern (ε := Empty) "VDD") (Columns.run l) = .ok ⟨2⟩ := by
  intro l t
  obtain ⟨⟨_, hsymbols, _⟩, hintern, husers, hmemory, _, _, _, _, hlists, _⟩ :=
    interns_stably (ε := Empty) l
  have hwords : t.size ≤ UInt32.size := by decide +kernel
  have hadded : added l 0 = [⟨10⟩, ⟨11⟩] ∧ added l 1 = [] := by decide +kernel
  have hlast : answer (intern (ε := Empty) "VDD") t = .ok ⟨2⟩ :=
    ((hintern "VDD").2.1 (by decide +kernel)).trans (by decide +kernel)
  have hagain : answer (intern (ε := Empty) "clk") t = .ok ⟨0⟩ :=
    ((hintern "clk").2.2 []).symm.trans (by decide +kernel)
  have hmissing : answer (addReference (ε := Empty) ⟨5⟩ ⟨10⟩) t = .ok false :=
    ((husers ⟨5⟩).2.2.2 ⟨10⟩).1.trans (by decide +kernel)
  exact ⟨by decide +kernel, (hsymbols hwords "rst" ⟨1⟩).2 (by decide +kernel), hagain, hlast,
    (husers ⟨0⟩).1.trans hadded.1, (husers ⟨1⟩).1.trans hadded.2, hmissing,
    hmemory.trans (by decide +kernel), (hlists "VDD").2.trans hlast⟩

end SymbolTable
end DesignStore
