/-
Calls that concern different arenas do not affect each other.

A call places a record in the pool with a tag, or uses a handle in the pool that issued it.  So
it concerns one pair of a tag and a type (`Call.pair?`), unless its handle cannot be read.  A
registry `Shows` a pool at a pair if its pool with the tag is alike as far as the type is
concerned, and goes on to do so as long as the pool is asked what concerns the pair and nothing
else (`Shows.call`, `Shows.other`).

So in a sequence of calls the answers of those that concern a pair, and the arena that is left
there, are those of a pool that is asked nothing else.  They are the same in every order of the
calls that keeps those of the pair in theirs (`arenas_independent`).
-/
import DesignStore.Proofs.Locality
import DesignStore.Proofs.Routing

namespace DesignStore
namespace Pool

def answers : List Request → Pool → List (Except (Failure PoolError) Answer)
  | [], _ => []
  | q :: l, p => answer q.perform p :: answers l (after q.perform p)

end Pool

namespace Registry

/-- What is asked of the pools of a registry. -/
inductive Call where
  | allocate (scope : ScopeTag) (k : RecordKind) (t : ObjectType)
  | use (id : ObjectId) (u : Pool.Use)

namespace Call

def route : Call → Route
  | allocate scope _ _ => .tag scope
  | use id _ => .issuer id

def request : Call → Pool.Request
  | allocate _ k t => .allocate k t
  | use id u => .use id u

def perform (c : Call) : EStateM (Failure PoolError) Registry (Option Pool.Answer) :=
  c.route.run c.request.perform

/-- The tag and the type a call concerns.  A handle that cannot be read concerns none. -/
def pair? : Call → Option (ScopeTag × ObjectType)
  | allocate scope _ t => some (scope, t)
  | use id _ => (SlotKey.unpack? id).map fun k => (k.scope, k.type)

end Call

def runCalls (l : List Call) (r : Registry) : Registry :=
  l.foldl (fun r c => after c.perform r) r

/-- The answers of the calls that concern a pair.  The others are carried out in between. -/
def answersOf (pair : Option (ScopeTag × ObjectType)) :
    List Call → Registry → List (Except (Failure PoolError) (Option Pool.Answer))
  | [], _ => []
  | c :: l, r =>
    if c.pair? = pair then answer c.perform r :: answersOf pair l (after c.perform r)
    else answersOf pair l (after c.perform r)

/-- What a pool is asked in the calls that concern a pair. -/
def concerning (pair : ScopeTag × ObjectType) (l : List Call) : List Pool.Request :=
  (l.filter (·.pair? = some pair)).map (·.request)

def arena? (r : Registry) (pair : ScopeTag × ObjectType) : Option BoundArena :=
  (r.pool? pair.1).bind (·.arena? pair.2)

variable {r r' : Registry} {s : ScopeTag} {t : ObjectType} {p : Pool} {c : Call}

theorem concerning_cons {pair : ScopeTag × ObjectType} (hc : c.pair? = some pair) (l : List Call) :
    concerning pair (c :: l) = c.request :: concerning pair l := by
  simp [concerning, hc]

theorem concerning_cons_of_ne {pair : ScopeTag × ObjectType} (hc : c.pair? ≠ some pair)
    (l : List Call) : concerning pair (c :: l) = concerning pair l := by
  simp [concerning, hc]

/-! ## One call -/

section Pool

variable {ε α : Type} {x : EStateM ε Pool α}

theorem pool?_after_onPool (hr : r.Sound) (hx : ∀ p, p.Sound → Pool.Follows p (after x p))
    (u : ScopeTag) : (after (onPool s x) r).pool? u =
      if u = s then (r.pool? s).map (after x) else r.pool? u := by
  cases hp : r.pool? s with
  | none =>
    rw [after_ok (onPool_of_none hp)]
    by_cases hu : u = s
    · rw [if_pos hu, hu, hp]
      rfl
    · rw [if_neg hu]
  | some p =>
    obtain ⟨hsound, hscope, _⟩ := hr.of_pool? hp
    have hf := hx p hsound
    rw [(swaps_onPool hr hp hf.scope hf.sound).pool, hscope]
    rfl

end Pool

theorem Call.passes (hr : r.Sound) (c : Call) : Passes r (after c.perform r) :=
  passes_route hr c.route fun _ hp => c.request.follows hp

/-- A call that concerns a pair is a request of the pool with the tag. -/
theorem Call.perform_of_pair (hc : c.pair? = some (s, t)) (r : Registry) :
    c.perform r = onPool s c.request.perform r := by
  cases c with
  | allocate scope k t =>
    cases hc
    rfl
  | use id u =>
    obtain ⟨key, hkey, he⟩ := Option.map_eq_some_iff.1 hc
    cases he
    exact onIssuer_of_unpack? hkey _

theorem Call.type?_of_pair (hc : c.pair? = some (s, t)) : c.request.type? = some t := by
  cases c with
  | allocate scope k t =>
    cases hc
    rfl
  | use id u =>
    obtain ⟨key, hkey, he⟩ := Option.map_eq_some_iff.1 hc
    cases he
    rw [request, Pool.Request.type?, hkey, Option.map_some]

theorem Call.answer_of_pair (hc : c.pair? = some (s, t)) (r : Registry) :
    answer c.perform r =
      (r.pool? s).elim (.ok none) fun p => (answer c.request.perform p).map some := by
  rw [← answer_onPool, answer, answer, perform_of_pair hc]

theorem Call.pool?_of_pair (hr : r.Sound) (hc : c.pair? = some (s, t)) (u : ScopeTag) :
    (after c.perform r).pool? u =
      if u = s then (r.pool? s).map (after c.request.perform) else r.pool? u := by
  rw [← pool?_after_onPool hr fun _ hp => c.request.follows hp, after, after, perform_of_pair hc]

/-- A handle that cannot be read finds nothing, and what is answered depends on no more than
which pools there are. -/
theorem Call.answer_of_no_pair (hc : c.pair? = none) (htags : r'.tags = r.tags) :
    answer c.perform r' = answer c.perform r := by
  cases c with
  | allocate scope k t => contradiction
  | use id u =>
    have hkey : SlotKey.unpack? id = none := Option.map_eq_none_iff.1 hc
    cases hs : ScopeTag.of? id with
    | none =>
      have hroute (r : Registry) : Route.scope? r (.issuer id) = none := hs
      exact (answer_ok (Route.run_of_none (hroute r') _)).trans
        (answer_ok (Route.run_of_none (hroute r) _)).symm
    | some s =>
      have hpool (r : Registry) : answer (Call.use id u).perform r =
          (r.pool? s).elim (.ok none) fun _ => .ok (some u.missing) := by
        have hroute : Route.scope? r (.issuer id) = some s := hs
        have hrun : (Call.use id u).perform r = onPool s (u.perform id) r :=
          Route.run_of_scope hroute _
        rw [answer, hrun]
        refine (answer_onPool s (u.perform id) r).trans ?_
        cases r.pool? s with
        | none => rfl
        | some p =>
          have hmissing := answer_ok (u.perform_of_no_key (key?_of_unpack?_none hkey p))
          rw [Option.elim_some, hmissing]
          rfl
      have hsome := isSome_pool?_of_tags htags s
      rw [hpool, hpool]
      cases hp : r.pool? s <;> cases hp' : r'.pool? s <;> simp_all

theorem Call.after_of_no_pair (hc : c.pair? = none) (r : Registry) : after c.perform r = r := by
  cases c with
  | allocate scope k t => contradiction
  | use id u =>
    have hkey : SlotKey.unpack? id = none := Option.map_eq_none_iff.1 hc
    rcases onIssuer_of_unpack?_none (r := r) (x := u.perform id) hkey
      (fun _ hk => u.perform_of_no_key hk) with h | h
    · exact after_ok h
    · exact after_ok h

/-! ## What is seen of a pair -/

/-- The pool with the tag is there, and is alike as far as the type is concerned. -/
def Shows (pair : ScopeTag × ObjectType) (r : Registry) (p : Pool) : Prop :=
  ∃ p₀, r.pool? pair.1 = some p₀ ∧ Pool.Alike pair.2 p₀ p

namespace Shows

theorem of_pool? (hp : r.pool? s = some p) : Shows (s, t) r p :=
  ⟨p, hp, Pool.Alike.refl t p⟩

theorem arena? {pair : ScopeTag × ObjectType} (h : Shows pair r p) :
    r.arena? pair = p.arena? pair.2 := by
  obtain ⟨p₀, hp₀, ha⟩ := h
  rw [Registry.arena?, hp₀, Option.bind_some, ha.arena]

/-- A call that concerns the pair is answered as the pool answers it. -/
theorem call (hr : r.Sound) (hp : p.Sound) (h : Shows (s, t) r p) (hc : c.pair? = some (s, t)) :
    answer c.perform r = (answer c.request.perform p).map some ∧
      Shows (s, t) (after c.perform r) (after c.request.perform p) := by
  obtain ⟨p₀, hp₀, ha⟩ := h
  have hp₀ : r.pool? s = some p₀ := hp₀
  have htype := Call.type?_of_pair hc
  have hsound := (hr.of_pool? hp₀).1
  refine ⟨?_, after c.request.perform p₀, ?_, Pool.Request.alike hsound hp ha htype⟩
  · rw [(Pool.Request.confined hsound hp ha htype).answer, Call.answer_of_pair hc, hp₀,
      Option.elim_some]
  · rw [Call.pool?_of_pair hr hc, if_pos rfl, hp₀, Option.map_some]

/-- Any other call leaves what is seen of the pair as it was. -/
theorem other (hr : r.Sound) (h : Shows (s, t) r p) (hc : c.pair? ≠ some (s, t)) :
    Shows (s, t) (after c.perform r) p := by
  obtain ⟨p₀, hp₀, ha⟩ := h
  have hp₀ : r.pool? s = some p₀ := hp₀
  cases hpair : c.pair? with
  | none =>
    rw [Call.after_of_no_pair hpair]
    exact ⟨p₀, hp₀, ha⟩
  | some pair =>
    obtain ⟨s', t'⟩ := pair
    have hpool := Call.pool?_of_pair hr hpair s
    by_cases hs : s = s'
    · subst hs
      rw [if_pos rfl, hp₀, Option.map_some] at hpool
      have ht : c.request.type? ≠ some t := by
        rw [Call.type?_of_pair hpair]
        intro e
        exact hc (by rw [hpair, Option.some.inj e])
      have hother := Pool.Request.alike_other (hr.of_pool? hp₀).1 ht
      exact ⟨_, hpool, hother.symm.trans ha⟩
    · rw [if_neg hs, hp₀] at hpool
      exact ⟨p₀, hpool, ha⟩

/-- In a sequence of calls those that concern the pair are answered as the pool answers them if
it is asked nothing else. -/
theorem run (hr : r.Sound) (hp : p.Sound) (h : Shows (s, t) r p) (l : List Call) :
    answersOf (some (s, t)) l r =
        (Pool.answers (concerning (s, t) l) p).map (Except.map some) ∧
      Shows (s, t) (runCalls l r) (Pool.run (concerning (s, t) l) p) := by
  induction l generalizing r p with
  | nil => exact ⟨rfl, h⟩
  | cons c l ih =>
    have hr' := (c.passes hr).sound
    by_cases hc : c.pair? = some (s, t)
    · obtain ⟨hanswer, hshows⟩ := h.call hr hp hc
      obtain ⟨hanswers, hrun⟩ := ih hr' (c.request.follows hp).sound hshows
      rw [answersOf, if_pos hc, concerning_cons hc, hanswer, hanswers]
      exact ⟨rfl, hrun⟩
    · obtain ⟨hanswers, hrun⟩ := ih hr' hp (h.other hr hc)
      rw [answersOf, if_neg hc, concerning_cons_of_ne hc, hanswers]
      exact ⟨rfl, hrun⟩

end Shows

/-! ## What is not seen -/

/-- Calls add no pools and drop none. -/
theorem tags_runCalls (hr : r.Sound) (l : List Call) : (runCalls l r).tags = r.tags := by
  induction l generalizing r with
  | nil => rfl
  | cons c l ih =>
    have hc := c.passes hr
    exact (ih hc.sound).trans hc.tags

theorem answersOf_of_no_pool (hr : r.Sound) (hs : s ∉ r.tags) (l : List Call) :
    answersOf (some (s, t)) l r = List.replicate (concerning (s, t) l).length (.ok none) := by
  induction l generalizing r with
  | nil => rfl
  | cons c l ih =>
    have hpasses := c.passes hr
    have hl := ih hpasses.sound (hpasses.tags ▸ hs)
    by_cases hc : c.pair? = some (s, t)
    · have hanswer : answer c.perform r = .ok none := by
        rw [Call.answer_of_pair hc, pool?_eq_none_iff.2 hs, Option.elim_none]
      rw [answersOf, if_pos hc, concerning_cons hc, List.length_cons, List.replicate_succ, hanswer,
        hl]
    · rw [answersOf, if_neg hc, concerning_cons_of_ne hc, hl]

theorem answersOf_no_pair (hr : r.Sound) (l : List Call) :
    answersOf none l r = (l.filter (·.pair? = none)).map fun c => answer c.perform r := by
  induction l generalizing r with
  | nil => rfl
  | cons c l ih =>
    have hpasses := c.passes hr
    have hl : answersOf none l (after c.perform r) =
        (l.filter (·.pair? = none)).map fun c => answer c.perform r := by
      rw [ih hpasses.sound]
      refine List.map_congr_left fun c' hc' => ?_
      exact Call.answer_of_no_pair (by simpa using (List.mem_filter.1 hc').2) hpasses.tags
    by_cases hc : c.pair? = none
    · rw [answersOf, if_pos hc, hl, List.filter_cons_of_pos (by simpa using hc), List.map_cons]
    · rw [answersOf, if_neg hc, hl, List.filter_cons_of_neg (by simpa using hc)]

/-! ## Orders of calls -/

/-- What is seen of a pair does not depend on the calls that do not concern it. -/
theorem answersOf_congr (hr : r.Sound) {pair : Option (ScopeTag × ObjectType)} {l l' : List Call}
    (h : l.filter (·.pair? = pair) = l'.filter (·.pair? = pair)) :
    answersOf pair l r = answersOf pair l' r := by
  cases pair with
  | none => rw [answersOf_no_pair hr, answersOf_no_pair hr, h]
  | some pair =>
    obtain ⟨s, t⟩ := pair
    have hl : concerning (s, t) l = concerning (s, t) l' := by rw [concerning, concerning, h]
    cases hp : r.pool? s with
    | none =>
      have hs := pool?_eq_none_iff.1 hp
      rw [answersOf_of_no_pool hr hs, answersOf_of_no_pool hr hs, hl]
    | some p =>
      have hshows : Shows (s, t) r p := .of_pool? hp
      have hsound := (hr.of_pool? hp).1
      rw [(hshows.run hr hsound l).1, (hshows.run hr hsound l').1, hl]

theorem arena?_runCalls_of_no_pool (hr : r.Sound) (hs : s ∉ r.tags) (l : List Call) :
    (runCalls l r).arena? (s, t) = none := by
  have hp : (runCalls l r).pool? s = none := by
    rw [pool?_eq_none_iff, tags_runCalls hr]
    exact hs
  simp only [arena?, hp, Option.bind_none]

theorem arena?_runCalls_congr (hr : r.Sound) {pair : ScopeTag × ObjectType} {l l' : List Call}
    (h : concerning pair l = concerning pair l') :
    (runCalls l r).arena? pair = (runCalls l' r).arena? pair := by
  obtain ⟨s, t⟩ := pair
  cases hp : r.pool? s with
  | none =>
    have hs := pool?_eq_none_iff.1 hp
    rw [arena?_runCalls_of_no_pool hr hs, arena?_runCalls_of_no_pool hr hs]
  | some p =>
    have hshows : Shows (s, t) r p := .of_pool? hp
    have hsound := (hr.of_pool? hp).1
    rw [(hshows.run hr hsound l).2.arena?, (hshows.run hr hsound l').2.arena?, h]

theorem filter_pair_swap {a b : Call} (hab : a.pair? ≠ b.pair?)
    (pair : Option (ScopeTag × ObjectType)) (before later : List Call) :
    (before ++ a :: b :: later).filter (·.pair? = pair) =
      (before ++ b :: a :: later).filter (·.pair? = pair) := by
  rw [List.filter_append, List.filter_append]
  by_cases ha : a.pair? = pair
  · have hb : ¬ b.pair? = pair := fun hb => hab (ha.trans hb.symm)
    simp [ha, hb]
  · simp only [List.filter_cons, ha, decide_false, Bool.false_eq_true, if_false]

/-! ## New pools -/

/-- The request is passed on to a pool. -/
def Request.AsksPool : Request → Prop
  | inPool _ _ => True
  | _ => False

/-- Nothing was asked of the pools yet. -/
structure Blank (c : PoolConfig) (r : Registry) : Prop where
  config : r.config = c
  pool : ∀ s p, r.pool? s = some p → p = Pool.empty s c

theorem Blank.step {c : PoolConfig} {q : Request} (hb : Blank c r) (hq : ¬ q.AsksPool)
    (h : Step q r r') : Blank c r' := by
  cases h with
  | opened _ opens =>
    refine ⟨opens.config.trans hb.config, fun s p hp => ?_⟩
    rw [opens.pool] at hp
    split at hp
    · rename_i hs
      rw [← Option.some.inj hp, hs, hb.config]
    · exact hb.pool s p hp
  | dropped drops =>
    refine ⟨drops.config.trans hb.config, fun s p hp => ?_⟩
    rw [drops.pool] at hp
    split at hp
    · contradiction
    · exact hb.pool s p hp
  | cleared => exact ⟨hb.config, fun s p hp => by simp [clear, pool?] at hp⟩
  | bound => exact ⟨hb.config, hb.pool⟩
  | passed => exact absurd trivial hq
  | _ => exact hb

theorem Blank.run {c : PoolConfig} (hr : r.Sound) (hb : Blank c r) {l : List Request}
    (hl : ∀ q ∈ l, ¬ q.AsksPool) : Blank c (run l r) := by
  induction l generalizing r with
  | nil => exact hb
  | cons q l ih =>
    obtain ⟨hq, hl⟩ := List.forall_mem_cons.1 hl
    have hstep := step_perform hr q
    exact ih (hstep.sound hr) (hb.step hq hstep) hl

/-- Let pools be created, bound and removed, and then be asked in any sequence of calls.  The
answers of the calls that concern one pair of a tag and a type, and the arena that is left there,
are those of a new pool with the tag that is asked nothing else; without a pool there is no
answer.  Two calls that concern different pairs can change places: no call gets another answer,
and no pair is left with another arena. -/
theorem arenas_independent {c : PoolConfig} {start : Registry} (h : Registry.new c = .ok start)
    {l : List Request} (hl : ∀ q ∈ l, ¬ q.AsksPool) :
    let r := run l start
    (∀ calls s t, (r.pool? s).isSome = true →
        let alone := concerning (s, t) calls
        answersOf (some (s, t)) calls r =
            (Pool.answers alone (Pool.empty s c)).map (Except.map some) ∧
          (runCalls calls r).arena? (s, t) = (Pool.run alone (Pool.empty s c)).arena? t) ∧
      (∀ calls s t, r.pool? s = none →
        answersOf (some (s, t)) calls r =
            List.replicate (concerning (s, t) calls).length (.ok none) ∧
          (runCalls calls r).arena? (s, t) = none) ∧
      ∀ before a b later, a.pair? ≠ b.pair? →
        let calls := before ++ a :: b :: later
        let swapped := before ++ b :: a :: later
        (∀ pair, answersOf pair calls r = answersOf pair swapped r) ∧
          ∀ pair, (runCalls calls r).arena? pair = (runCalls swapped r).arena? pair := by
  obtain ⟨hc, rfl⟩ := new_eq_ok h
  have hstart := orderly_empty hc
  intro r
  have hr : r.Sound := (hstart.run l).sound
  have hblank : Blank c r := Blank.run hstart.sound ⟨rfl, by simp [empty, pool?]⟩ hl
  refine ⟨fun calls s t hs => ?_, fun calls s t hs => ?_, fun before a b later hab => ?_⟩
  · obtain ⟨p, hp⟩ := Option.isSome_iff_exists.1 hs
    obtain rfl : p = Pool.empty s c := hblank.pool s p hp
    have hshows : Shows (s, t) r (Pool.empty s c) := .of_pool? hp
    obtain ⟨hanswers, hrun⟩ := hshows.run hr (Pool.sound_empty s hc) calls
    exact ⟨hanswers, hrun.arena?⟩
  · have hs := pool?_eq_none_iff.1 hs
    exact ⟨answersOf_of_no_pool hr hs calls, arena?_runCalls_of_no_pool hr hs calls⟩
  · have hswap := fun pair => filter_pair_swap hab pair before later
    refine ⟨fun pair => answersOf_congr hr (hswap pair), fun pair => ?_⟩
    refine arena?_runCalls_congr hr ?_
    rw [concerning, concerning, hswap]

/-- Two pools with room for one record of a type.  What is asked of the second has no part in
what the first answers, and could be asked of it earlier. -/
theorem arenas_independent_full :
    let c : PoolConfig := { pageSlots := 1, maxPages := 1 }
    let r := run [.createPool, .createPool] (empty c)
    let first := SlotKey.pack { scope := ⟨1⟩, type := .inst, generation := 0, place := ⟨0, 0⟩ }
    let second := SlotKey.pack { scope := ⟨1⟩, type := .inst, generation := 1, place := ⟨0, 0⟩ }
    let before : List Call := [.allocate ⟨1⟩ .inst .inst, .allocate ⟨2⟩ .inst .inst]
    let free : Call := .use first .free
    let refused : Call := .allocate ⟨2⟩ .net .inst
    let later : List Call := [.allocate ⟨1⟩ .inst .inst, .allocate ⟨1⟩ .inst .inst]
    answersOf (some (⟨1⟩, .inst)) (before ++ free :: refused :: later) r =
        [.ok (some (.placed first)), .ok (some (.freed true)), .ok (some (.placed second)),
          .error (.refused (.capacityExceeded .inst 1))] ∧
      answersOf (some (⟨2⟩, .inst)) (before ++ free :: refused :: later) r =
        answersOf (some (⟨2⟩, .inst)) (before ++ refused :: free :: later) r := by
  intro c r first second before free refused later
  have hnew : Registry.new c = .ok (empty c) := rfl
  obtain ⟨halone, _, hswap⟩ := arenas_independent hnew (l := [.createPool, .createPool])
    (by simp [Request.AsksPool])
  have hanswers := (halone (before ++ free :: refused :: later) ⟨1⟩ .inst rfl).1
  have hpairs : free.pair? ≠ refused.pair? := by decide +kernel
  refine ⟨hanswers.trans ?_, (hswap before free refused later hpairs).1 _⟩
  cbv

end Registry
end DesignStore
