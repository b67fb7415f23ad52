/-
The open scopes as a forest.

A nested scope names the scope around it, which was opened before, and a scope lists the
scopes directly in it in the order they were opened.  So going down from a scope comes to
no scope twice, and the worklist that collects the scopes to close with one comes to its
end (`subtree_drains`) with exactly those that lie inside it (`mem_subtree`).

The scopes stay a forest when one is opened (`Forest.cons`) and when one is closed with
all that lies inside it (`Forest.prune`).
-/
import DesignStore.Database.Teardown
import DesignStore.Proofs.Operation

namespace DesignStore

/-- Where no two elements share a key, what is done to the first with a key is done to each
that has it. -/
theorem after_onFirst_eq_map {ε σ κ α : Type} [DecidableEq κ] (key : σ → κ) {l : List σ}
    (h : (l.map key).Nodup) (k : κ) (x : EStateM ε σ α) :
    after (onFirst (key · = k) x) l = l.map fun s => if key s = k then after x s else s := by
  have hsame (l' : List σ) (hl' : ∀ s ∈ l', key s ≠ k) :
      l'.map (fun s => if key s = k then after x s else s) = l' :=
    (List.map_congr_left fun s hs => if_neg (hl' s hs)).trans l'.map_id
  rcases after_onFirst (key · = k) x l with ⟨hn, ha⟩ | ⟨l₁, s, l₂, rfl, hl₁, hs, ha⟩
  · rw [ha, hsame l fun s hs => by simpa using List.find?_eq_none.1 hn s hs]
  · have hk : key s = k := by simpa using List.find?_some hs
    rw [List.map_append, List.map_cons, List.nodup_append] at h
    have h₂ : ∀ t ∈ l₂, key t ≠ k := by
      intro t ht e
      exact (List.nodup_cons.1 h.2.1).1 (List.mem_map.2 ⟨t, ht, e.trans hk.symm⟩)
    rw [ha, List.map_append, List.map_cons, hsame l₁ fun s hs => by simpa using hl₁ s hs,
      hsame l₂ h₂, if_pos hk]

/-- A scope without its tables: whose it is, where it is, and what is in it. -/
def StorageScope.frame (s : StorageScope) : StorageScope :=
  { s with symbols := {}, polygons := {}, properties := {} }

/-- The owners of the scopes directly in the scope of `p`, in the order they were opened. -/
def childrenIn (l : List StorageScope) (p : ObjectId) : List ObjectId :=
  ((l.filter (·.parent = some p)).map (·.owner)).reverse

/-- The scope of `c` is directly in the scope of `p`. -/
def Within (l : List StorageScope) (p c : ObjectId) : Prop :=
  ∃ s ∈ l, s.owner = c ∧ s.parent = some p

/-- The scope of `c` is that of `p`, or lies inside it at some depth. -/
def Inside (l : List StorageScope) : ObjectId → ObjectId → Prop :=
  Relation.ReflTransGen (Within l)

/-- The scope around each scope is open, and was opened before.  The owner of a nested
scope is a record of the scope around it, any other owner one of its own scope. -/
structure Rooted (l : List StorageScope) : Prop where
  owners : (l.map (·.owner)).Nodup
  tags : (l.map (·.tag)).Nodup
  root : ∀ s ∈ l, s.parent = none → ScopeTag.of? s.owner = some s.tag
  parent : ∀ s ∈ l, ∀ p, s.parent = some p → ∃ q ∈ l, q.owner = p ∧
    ScopeTag.of? s.owner = some q.tag ∧ q.tag.toNat < s.tag.toNat

/-- The scopes are nested in each other, and list what is nested in them. -/
structure Forest (l : List StorageScope) : Prop extends Rooted l where
  children : ∀ q ∈ l, q.children = childrenIn l q.owner

/-- A change of scopes that leaves them where they are. -/
structure Stays (f : StorageScope → StorageScope) : Prop where
  owner : ∀ s, (f s).owner = s.owner
  tag : ∀ s, (f s).tag = s.tag
  parent : ∀ s, (f s).parent = s.parent

variable {l : List StorageScope} {s t q : StorageScope} {p c o : ObjectId}
  {f : StorageScope → StorageScope}

namespace Stays

theorem map_owner (hf : Stays f) (l : List StorageScope) :
    (l.map f).map (·.owner) = l.map (·.owner) := by
  rw [List.map_map]
  exact List.map_congr_left fun s _ => hf.owner s

theorem map_tag (hf : Stays f) (l : List StorageScope) : (l.map f).map (·.tag) = l.map (·.tag) := by
  rw [List.map_map]
  exact List.map_congr_left fun s _ => hf.tag s

theorem ite (hf : Stays f) (b : StorageScope → Prop) [DecidablePred b] :
    Stays fun s => if b s then f s else s := by
  refine ⟨?_, ?_, ?_⟩ <;> intro s <;> split
  · exact hf.owner s
  · rfl
  · exact hf.tag s
  · rfl
  · exact hf.parent s
  · rfl

end Stays

theorem stays_frame : Stays StorageScope.frame :=
  ⟨fun _ => rfl, fun _ => rfl, fun _ => rfl⟩

section Frames

variable {l' : List StorageScope} (hl : l'.map (·.frame) = l.map (·.frame))
include hl

theorem exists_of_frames (hs : s ∈ l') : ∃ t ∈ l, t.owner = s.owner ∧ t.tag = s.tag ∧
    t.index = s.index ∧ t.parent = s.parent ∧ t.children = s.children := by
  have hf := List.mem_map_of_mem (f := StorageScope.frame) hs
  rw [hl] at hf
  obtain ⟨t, ht, hts⟩ := List.mem_map.1 hf
  simp only [StorageScope.frame, StorageScope.mk.injEq, and_true] at hts
  exact ⟨t, ht, hts⟩

theorem map_owner_of_frames : l'.map (·.owner) = l.map (·.owner) := by
  rw [← stays_frame.map_owner l', hl, stays_frame.map_owner l]

theorem map_tag_of_frames : l'.map (·.tag) = l.map (·.tag) := by
  rw [← stays_frame.map_tag l', hl, stays_frame.map_tag l]

end Frames

theorem mem_childrenIn : c ∈ childrenIn l p ↔ Within l p c := by
  simp only [childrenIn, Within, List.mem_reverse, List.mem_map, List.mem_filter,
    decide_eq_true_eq]
  constructor
  · rintro ⟨s, ⟨hs, hp⟩, hc⟩
    exact ⟨s, hs, hc, hp⟩
  · rintro ⟨s, hs, hc, hp⟩
    exact ⟨s, ⟨hs, hp⟩, hc⟩

theorem childrenIn_map (hf : Stays f) (l : List StorageScope) (p : ObjectId) :
    childrenIn (l.map f) p = childrenIn l p := by
  have hp : (fun s : StorageScope => decide (s.parent = some p)) ∘ f =
      fun s => decide (s.parent = some p) := by
    funext s
    rw [Function.comp_apply, hf.parent]
  rw [childrenIn, List.filter_map, hf.map_owner, hp, childrenIn]

theorem childrenIn_of_frames {l' : List StorageScope} (hl : l'.map (·.frame) = l.map (·.frame))
    (p : ObjectId) : childrenIn l' p = childrenIn l p := by
  rw [← childrenIn_map stays_frame l', hl, childrenIn_map stays_frame l]

theorem childrenIn_cons (s : StorageScope) (l : List StorageScope) (p : ObjectId) :
    childrenIn (s :: l) p = if s.parent = some p then childrenIn l p ++ [s.owner]
      else childrenIn l p := by
  by_cases h : s.parent = some p <;> simp [childrenIn, h]

namespace Rooted

theorem eq_of_owner (h : Rooted l) (hs : s ∈ l) (ht : t ∈ l) (e : s.owner = t.owner) : s = t :=
  List.inj_on_of_nodup_map h.owners hs ht e

theorem eq_of_tag (h : Rooted l) (hs : s ∈ l) (ht : t ∈ l) (e : s.tag = t.tag) : s = t :=
  List.inj_on_of_nodup_map h.tags hs ht e

theorem tag_eq_iff (h : Rooted l) (hs : s ∈ l) (ht : t ∈ l) :
    s.tag = t.tag ↔ s.owner = t.owner := by
  constructor
  · intro e
    rw [h.eq_of_tag hs ht e]
  · intro e
    rw [h.eq_of_owner hs ht e]

theorem nodup_childrenIn (h : Rooted l) (p : ObjectId) : (childrenIn l p).Nodup :=
  List.nodup_reverse.2 (h.owners.sublist (List.filter_sublist.map _))

theorem childrenIn_eq_nil (h : Rooted l) (hp : ∀ q ∈ l, q.owner ≠ p) : childrenIn l p = [] := by
  refine List.eq_nil_iff_forall_not_mem.2 fun c hc => ?_
  obtain ⟨s, hs, _, hsp⟩ := mem_childrenIn.1 hc
  obtain ⟨q, hq, hqp, _⟩ := h.parent s hs p hsp
  exact hp q hq hqp

theorem map (h : Rooted l) (hf : Stays f) : Rooted (l.map f) where
  owners := by
    rw [hf.map_owner]
    exact h.owners
  tags := by
    rw [hf.map_tag]
    exact h.tags
  root := by
    refine List.forall_mem_map.2 fun s hs hn => ?_
    rw [hf.parent] at hn
    rw [hf.owner, hf.tag]
    exact h.root s hs hn
  parent := by
    refine List.forall_mem_map.2 fun s hs p hp => ?_
    rw [hf.parent] at hp
    obtain ⟨q, hq, hqp, hof, hlt⟩ := h.parent s hs p hp
    refine ⟨f q, List.mem_map_of_mem hq, (hf.owner q).trans hqp, ?_, ?_⟩
    · rw [hf.owner, hf.tag, hof]
    · rw [hf.tag, hf.tag]
      exact hlt

theorem of_frames (h : Rooted l) {l' : List StorageScope}
    (hl : l'.map (·.frame) = l.map (·.frame)) : Rooted l' where
  owners := by
    rw [map_owner_of_frames hl]
    exact h.owners
  tags := by
    rw [map_tag_of_frames hl]
    exact h.tags
  root := by
    intro s hs hn
    obtain ⟨t, ht, howner, htag, _, hparent, _⟩ := exists_of_frames hl hs
    rw [← howner, ← htag]
    exact h.root t ht (hparent.trans hn)
  parent := by
    intro s hs p hp
    obtain ⟨t, ht, howner, htag, _, hparent, _⟩ := exists_of_frames hl hs
    obtain ⟨q, hq, hqp, hof, hlt⟩ := h.parent t ht p (hparent.trans hp)
    obtain ⟨q', hq', hqo, hqt, _⟩ := exists_of_frames hl.symm hq
    exact ⟨q', hq', hqo.trans hqp, by rw [← howner, hof, hqt], by rwa [hqt, ← htag]⟩

theorem cons (h : Rooted l) (howner : ∀ t ∈ l, t.owner ≠ s.owner) (htag : ∀ t ∈ l, t.tag ≠ s.tag)
    (hroot : s.parent = none → ScopeTag.of? s.owner = some s.tag)
    (hparent : ∀ p, s.parent = some p → ∃ q ∈ l, q.owner = p ∧
      ScopeTag.of? s.owner = some q.tag ∧ q.tag.toNat < s.tag.toNat) : Rooted (s :: l) where
  owners := List.nodup_cons.2 ⟨by simpa using howner, h.owners⟩
  tags := List.nodup_cons.2 ⟨by simpa using htag, h.tags⟩
  root := by
    intro t ht hn
    rcases List.mem_cons.1 ht with rfl | ht
    · exact hroot hn
    · exact h.root t ht hn
  parent := by
    intro t ht p hp
    have hup : ∃ q ∈ l, q.owner = p ∧ ScopeTag.of? t.owner = some q.tag ∧
        q.tag.toNat < t.tag.toNat := by
      rcases List.mem_cons.1 ht with rfl | ht
      · exact hparent p hp
      · exact h.parent t ht p hp
    obtain ⟨q, hq, hrest⟩ := hup
    exact ⟨q, List.mem_cons_of_mem s hq, hrest⟩

/-- Scopes go with all that is directly in them. -/
theorem filter (h : Rooted l) {keep : StorageScope → Bool}
    (hkeep : ∀ s ∈ l, ∀ q ∈ l, s.parent = some q.owner → keep s = true → keep q = true) :
    Rooted (l.filter keep) where
  owners := h.owners.sublist (List.filter_sublist.map _)
  tags := h.tags.sublist (List.filter_sublist.map _)
  root := fun s hs => h.root s (List.mem_filter.1 hs).1
  parent := by
    intro s hs p hp
    obtain ⟨hs, hks⟩ := List.mem_filter.1 hs
    obtain ⟨q, hq, hqp, hrest⟩ := h.parent s hs p hp
    exact ⟨q, List.mem_filter.2 ⟨hq, hkeep s hs q hq (hp.trans (by rw [hqp])) hks⟩, hqp, hrest⟩

/-! ## Going down -/

theorem within_unique (h : Rooted l) {p' : ObjectId} (hp : Within l p c) (hp' : Within l p' c) :
    p = p' := by
  obtain ⟨s, hs, hc, hsp⟩ := hp
  obtain ⟨t, ht, hc', htp⟩ := hp'
  rw [h.eq_of_owner hs ht (hc.trans hc'.symm), htp] at hsp
  exact (Option.some.inj hsp).symm

theorem tag_lt_of_transGen (h : Rooted l) (hpc : Relation.TransGen (Within l) p c) :
    ∀ q ∈ l, ∀ s ∈ l, q.owner = p → s.owner = c → q.tag.toNat < s.tag.toNat := by
  have hstep {b c : ObjectId} (hbc : Within l b c) (s : StorageScope) (hs : s ∈ l)
      (hc : s.owner = c) : ∃ q ∈ l, q.owner = b ∧ q.tag.toNat < s.tag.toNat := by
    obtain ⟨t, ht, htc, htp⟩ := hbc
    cases h.eq_of_owner hs ht (hc.trans htc.symm)
    obtain ⟨q, hq, hqb, _, hlt⟩ := h.parent s hs b htp
    exact ⟨q, hq, hqb, hlt⟩
  induction hpc with
  | single hpc =>
    intro q hq s hs hqp hsc
    obtain ⟨q', hq', hqp', hlt⟩ := hstep hpc s hs hsc
    rwa [h.eq_of_owner hq hq' (hqp.trans hqp'.symm)]
  | tail _ hbc ih =>
    intro q hq s hs hqp hsc
    obtain ⟨b, hb, hbo, hlt⟩ := hstep hbc s hs hsc
    exact Nat.lt_trans (ih q hq b hb hqp hbo) hlt

theorem not_transGen_self (h : Rooted l) : ¬ Relation.TransGen (Within l) p p := by
  intro hp
  obtain ⟨_, _, s, hs, hsp, _⟩ := Relation.TransGen.tail'_iff.1 hp
  exact Nat.lt_irrefl _ (h.tag_lt_of_transGen hp s hs s hs hsp hsp)

end Rooted

namespace Forest

theorem nil : Forest [] := by
  refine ⟨⟨List.nodup_nil, List.nodup_nil, ?_, ?_⟩, ?_⟩ <;> simp

/-- Whether scopes are nested in each other does not depend on their tables. -/
theorem of_frames (h : Forest l) {l' : List StorageScope}
    (hl : l'.map (·.frame) = l.map (·.frame)) : Forest l' where
  toRooted := h.toRooted.of_frames hl
  children := by
    intro q hq
    obtain ⟨t, ht, howner, _, _, _, hchildren⟩ := exists_of_frames hl hq
    rw [← hchildren, h.children t ht, childrenIn_of_frames hl, howner]

/-- A scope is opened, and listed last by the scope around it if there is one. -/
theorem cons (h : Forest l) (howner : ∀ t ∈ l, t.owner ≠ s.owner) (htag : ∀ t ∈ l, t.tag ≠ s.tag)
    (hroot : s.parent = none → ScopeTag.of? s.owner = some s.tag)
    (hparent : ∀ p, s.parent = some p → ∃ q ∈ l, q.owner = p ∧
      ScopeTag.of? s.owner = some q.tag ∧ q.tag.toNat < s.tag.toNat)
    (hs : s.children = []) (hf : Stays f)
    (hfc : ∀ t, (f t).children = if s.parent = some t.owner then t.children ++ [s.owner]
      else t.children) : Forest (s :: l.map f) where
  toRooted := by
    refine (h.toRooted.map hf).cons ?_ ?_ hroot ?_
    · refine List.forall_mem_map.2 fun t ht => ?_
      rw [hf.owner]
      exact howner t ht
    · refine List.forall_mem_map.2 fun t ht => ?_
      rw [hf.tag]
      exact htag t ht
    · intro p hp
      obtain ⟨q, hq, hqp, hrest⟩ := hparent p hp
      refine ⟨f q, List.mem_map_of_mem hq, (hf.owner q).trans hqp, ?_⟩
      rwa [hf.tag]
  children := by
    have hne : s.parent ≠ some s.owner := by
      intro hp
      obtain ⟨q, hq, hqs, _⟩ := hparent s.owner hp
      exact howner q hq hqs
    intro q hq
    rw [childrenIn_cons, childrenIn_map hf]
    rcases List.mem_cons.1 hq with rfl | hq
    · -- nothing is in the new scope
      rw [if_neg hne, hs, h.childrenIn_eq_nil howner]
    · obtain ⟨t, ht, rfl⟩ := List.mem_map.1 hq
      rw [hfc, hf.owner, h.children t ht]

/-- A scope is closed with all that lies inside it, and is listed no longer. -/
theorem prune (h : Forest l) {out : List ObjectId} (hout : ∀ x, x ∈ out ↔ Inside l o x)
    (hf : Stays f) (hfc : ∀ t ∈ l, (f t).children = t.children.filter (· ≠ o)) :
    Forest ((l.filter (·.owner ∉ out)).map f) where
  toRooted := by
    refine (h.toRooted.filter fun s hs q hq hp hks => ?_).map hf
    simp only [decide_eq_true_eq, hout] at hks ⊢
    exact fun hin => hks (hin.tail ⟨s, hs, rfl, hp⟩)
  children := by
    refine List.forall_mem_map.2 fun q hq => ?_
    obtain ⟨hq, hkq⟩ := List.mem_filter.1 hq
    simp only [decide_eq_true_eq, hout] at hkq
    have hsame (s : StorageScope) (hs : s ∈ l) (hp : s.parent = some q.owner) :
        decide (s.owner ≠ o) = decide (s.owner ∉ out) := by
      rw [decide_eq_decide, not_iff_not, hout]
      constructor
      · intro e
        rw [e]
        exact Relation.ReflTransGen.refl
      · -- what is directly in a scope that stays lies inside `o` only if it is `o`
        intro hin
        rcases Relation.ReflTransGen.cases_tail hin with e | ⟨b, hb, hbs⟩
        · exact e
        · rw [h.within_unique hbs ⟨s, hs, rfl, hp⟩] at hb
          exact absurd hb hkq
    rw [hfc q hq, hf.owner, childrenIn_map hf, h.children q hq, childrenIn, childrenIn,
      List.filter_reverse, List.filter_map, List.filter_filter, List.filter_filter]
    congr 2
    refine List.filter_congr fun s hs => ?_
    by_cases hp : s.parent = some q.owner
    · simp only [Function.comp_apply, hp, hsame s hs hp, decide_true, Bool.and_true, Bool.true_and]
    · simp [hp]

end Forest

/-! ## The worklist -/

namespace Database

variable {db : Database} {owner : ObjectId}

/-- What is put on the worklist when an owner is taken off it. -/
def childrenOf (db : Database) (owner : ObjectId) : List ObjectId :=
  ((db.scope? owner).map (·.children)).getD []

/-- A worklist comes to its end, with what was taken off it until then. -/
inductive Drains (db : Database) : List ObjectId → List ObjectId → Prop
  | nil : Drains db [] []
  | cons {owner : ObjectId} {rest out : List ObjectId} :
      Drains db (rest ++ db.childrenOf owner) out → Drains db (owner :: rest) (owner :: out)

theorem nested_cons (db : Database) (n : Nat) (owner : ObjectId) (rest : List ObjectId) :
    db.nested (n + 1) (owner :: rest) = owner :: db.nested n (rest ++ db.childrenOf owner) := rfl

theorem of_scope? {s : StorageScope} (ho : db.scope? owner = some s) :
    s ∈ db.scopes ∧ s.owner = owner :=
  ⟨List.mem_of_find?_eq_some ho, by simpa using List.find?_some ho⟩

theorem scope?_of_mem (h : Forest db.scopes) {s : StorageScope} (hs : s ∈ db.scopes) :
    db.scope? s.owner = some s :=
  (find?_key_eq_some_iff StorageScope.owner h.owners).2 ⟨hs, rfl⟩

theorem homeScope?_eq_some_iff (h : (db.scopes.map (·.tag)).Nodup) {id : ObjectId}
    {s : StorageScope} :
    db.homeScope? id = some s ↔ s ∈ db.scopes ∧ ScopeTag.of? id = some s.tag := by
  refine Option.bind_eq_some_iff.trans ?_
  simp only [find?_key_eq_some_iff StorageScope.tag h]
  constructor
  · rintro ⟨t, hof, hs, rfl⟩
    exact ⟨hs, hof⟩
  · rintro ⟨hs, hof⟩
    exact ⟨s.tag, hof, hs, rfl⟩

theorem childrenOf_eq (h : Forest db.scopes) (p : ObjectId) :
    db.childrenOf p = childrenIn db.scopes p := by
  rw [childrenOf]
  cases hp : db.scope? p with
  | none =>
    refine (h.childrenIn_eq_nil fun q hq => ?_).symm
    simpa using List.find?_eq_none.1 hp q hq
  | some q =>
    obtain ⟨hq, hqp⟩ := of_scope? hp
    rw [Option.map_some, Option.getD_some, h.children q hq, hqp]

/-- The worklist of the scope of `root` part of the way: what was taken off, and what is
on. -/
structure Sweep (db : Database) (root : ObjectId) (off on : List ObjectId) : Prop where
  nodup : (off ++ on).Nodup
  inside : ∀ x ∈ off ++ on, Inside db.scopes root x
  parent : ∀ x ∈ off ++ on, x = root ∨ ∃ p ∈ off, Within db.scopes p x
  closed : ∀ p ∈ off, ∀ c, Within db.scopes p c → c ∈ off ++ on

namespace Sweep

variable {root : ObjectId} {off rest : List ObjectId}

theorem start (db : Database) (root : ObjectId) : db.Sweep root [] [root] where
  nodup := List.nodup_singleton root
  inside := by
    intro x hx
    rw [show x = root by simpa using hx]
    exact Relation.ReflTransGen.refl
  parent := fun x hx => Or.inl (by simpa using hx)
  closed := by simp

/-- What is put on was on never before: the root lies in none of the others, and the others
came from the owner of the scope around them, which was taken off before. -/
theorem step (h : Forest db.scopes) (hw : db.Sweep root off (owner :: rest)) :
    db.Sweep root (off ++ [owner]) (rest ++ db.childrenOf owner) := by
  have hassoc : off ++ [owner] ++ (rest ++ db.childrenOf owner) =
      off ++ owner :: rest ++ db.childrenOf owner := by simp
  have howner : owner ∈ off ++ owner :: rest := by simp
  have hchild {c : ObjectId} : c ∈ db.childrenOf owner ↔ Within db.scopes owner c := by
    rw [childrenOf_eq h, mem_childrenIn]
  have hnew (c : ObjectId) (hc : Within db.scopes owner c) : c ∉ off ++ owner :: rest := by
    intro hmem
    rcases hw.parent c hmem with rfl | ⟨p, hp, hpc⟩
    · exact h.not_transGen_self (Relation.TransGen.tail' (hw.inside owner howner) hc)
    · rw [h.within_unique hpc hc] at hp
      exact (List.nodup_append.1 hw.nodup).2.2 owner hp owner List.mem_cons_self rfl
  refine ⟨?_, ?_, ?_, ?_⟩
  · rw [hassoc, List.nodup_append]
    refine ⟨hw.nodup, by rw [childrenOf_eq h]; exact h.nodup_childrenIn owner, ?_⟩
    rintro x hx c hc rfl
    exact hnew x (hchild.1 hc) hx
  · intro x hx
    rw [hassoc, List.mem_append] at hx
    rcases hx with hx | hx
    · exact hw.inside x hx
    · exact (hw.inside owner howner).tail (hchild.1 hx)
  · intro x hx
    rw [hassoc, List.mem_append] at hx
    rcases hx with hx | hx
    · exact (hw.parent x hx).imp_right fun ⟨p, hp, hpx⟩ => ⟨p, List.mem_append_left _ hp, hpx⟩
    · exact Or.inr ⟨owner, by simp, hchild.1 hx⟩
  · intro p hp c hc
    rw [hassoc, List.mem_append]
    rcases List.mem_append.1 hp with hp | hp
    · exact Or.inl (hw.closed p hp c hc)
    · rw [show p = owner by simpa using hp] at hc
      exact Or.inr (hchild.2 hc)

/-- The lists of children bound what can be on the worklist in all. -/
theorem length_le (hw : db.Sweep root off rest) (h : Forest db.scopes) :
    off.length + rest.length ≤ total (·.children.length) db.scopes + 1 := by
  have hsub : off ++ rest ⊆ root :: db.scopes.flatMap (·.children) := by
    intro x hx
    rcases hw.parent x hx with rfl | ⟨p, _, hpx⟩
    · exact List.mem_cons_self
    · refine List.mem_cons_of_mem _ (List.mem_flatMap.2 ?_)
      obtain ⟨s, hs, hsx, hsp⟩ := hpx
      obtain ⟨q, hq, hqp, _⟩ := h.parent s hs p hsp
      refine ⟨q, hq, ?_⟩
      rw [h.children q hq, hqp]
      exact mem_childrenIn.2 ⟨s, hs, hsx, hsp⟩
  have hle := (hw.nodup.subperm hsub).length_le
  rwa [List.length_append, List.length_cons, length_flatMap_eq_total] at hle

theorem drains (h : Forest db.scopes) (n : Nat) {on : List ObjectId} (hw : db.Sweep root off on)
    (hn : total (·.children.length) db.scopes + 1 ≤ off.length + n) :
    db.Drains on (db.nested n on) ∧ db.Sweep root (off ++ db.nested n on) [] := by
  induction n generalizing off on with
  | zero =>
    cases on with
    | nil => exact ⟨Drains.nil, by simpa [nested] using hw⟩
    | cons owner rest =>
      have hle := hw.length_le h
      rw [List.length_cons] at hle
      omega
  | succ n ih =>
    cases on with
    | nil => exact ⟨Drains.nil, by simpa [nested] using hw⟩
    | cons owner rest =>
      rw [nested_cons]
      have hlen : (off ++ [owner]).length = off.length + 1 := by simp
      obtain ⟨hd, hs⟩ := ih (hw.step h) (by omega)
      refine ⟨hd.cons, ?_⟩
      rwa [List.append_assoc, List.singleton_append] at hs

end Sweep

theorem subtree_drains (h : Forest db.scopes) (owner : ObjectId) :
    db.Drains [owner] (db.subtree owner) :=
  ((Sweep.start db owner).drains h _ (by simp)).1

theorem mem_subtree (h : Forest db.scopes) {x : ObjectId} :
    x ∈ db.subtree owner ↔ Inside db.scopes owner x := by
  have hs := ((Sweep.start db owner).drains h (total (·.children.length) db.scopes + 1)
    (by simp)).2
  rw [List.nil_append] at hs
  have hmem {y : ObjectId} : y ∈ db.subtree owner ++ [] ↔ y ∈ db.subtree owner := by
    rw [List.append_nil]
  constructor
  · exact fun hx => hs.inside x (hmem.2 hx)
  · intro hx
    induction hx with
    | refl => exact List.mem_cons_self
    | tail _ hbc ih => exact hmem.1 (hs.closed _ ih _ hbc)

end Database
end DesignStore
