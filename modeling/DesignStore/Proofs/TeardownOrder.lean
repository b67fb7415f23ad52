/-
Scopes can be closed in any order.

Closing a scope closes all that lies inside it.  It comes to the same to close some of the
scopes inside it by hand before: what is changed by hand in the scope around one that is closed
goes with that scope later (`destroyScope_after_inner`).  So a scope can be taken down piece by
piece, in any order (`destroyScope_any_order`).
-/
import DesignStore.Proofs.Upkeep

namespace DesignStore

theorem filter_after_onFirst {ε σ α : Type} {p q : σ → Bool} {x : EStateM ε σ α} {l : List σ}
    (hx : ∀ s, l.find? p = some s → q s = false ∧ q (after x s) = false) :
    (after (onFirst p x) l).filter q = l.filter q := by
  rcases after_onFirst p x l with ⟨_, ha⟩ | ⟨l₁, s, l₂, rfl, _, hs, ha⟩
  · rw [ha]
  · obtain ⟨hq, hq'⟩ := hx s hs
    simp [ha, hq, hq']

theorem Pool.scope_after_free {ε : Type} (id : ObjectId) (p : Pool) :
    (after (Pool.free (ε := ε) id) p).scope = p.scope := by
  cases hk : p.key? id with
  | none => rw [after_ok (Pool.free_of_no_key hk)]
  | some key =>
    have hr : after (Pool.free (ε := ε) id) p =
        after ((·.getD false) <$> onArena key (BoundArena.free (ε := ε) key)) p := by
      simp only [after, Pool.free, hk]
      rfl
    rw [hr, after_map, after_onArena]

/-- A change of a pool is lost when the pool is dropped. -/
theorem Registry.less_after_onIssuer {ε α : Type} {x : EStateM ε Pool α} {id : ObjectId}
    {t : ScopeTag} {p : ScopeTag → Bool} (hx : ∀ q, (after x q).scope = q.scope)
    (hof : ScopeTag.of? id = some t) (ht : p t = true) (r : Registry) :
    (after (onIssuer id x) r).less p = r.less p := by
  have hr : after (onIssuer id x) r = after (onPool t x) r := by
    simp only [after, onIssuer, hof]
  rw [hr, after_onPool, less, less]
  congr 1
  refine filter_after_onFirst fun q hq => ?_
  have hqt : q.scope = t := by simpa using List.find?_some hq
  simp [hx, hqt, ht]

/-- Where owners and positions say the same, the positions determine the table. -/
theorem Hierarchy.eq_of_positions {h h' : Hierarchy} (hp : h.Paired) (hp' : h'.Paired)
    (hsize : h.size = h'.size) (hpos : h.positions = h'.positions)
    (hactive : ∀ a, h.active a = h'.active a) : h = h' := by
  have howners : h.owners = h'.owners := by
    refine Array.ext hsize fun i hi hi' => ?_
    have hat {g : Hierarchy} (hg : g.Paired) (hig : i < g.owners.size) (id : ObjectId)
        (hid : id ≠ ObjectId.null) :
        g.owners[i] = id ↔ g.positions.get? id = some ⟨UInt32.ofNat i⟩ := by
      constructor
      · rintro rfl
        exact hg.position i _ (Array.getElem?_eq_getElem hig) hid
      · intro hget
        have howner := (hg.owner_of_get? hget).1
        have hnat : (⟨UInt32.ofNat i⟩ : ObjectIndex).toNat = i :=
          UInt32.toNat_ofNat_of_lt' (Nat.lt_of_lt_of_le hig hg.size_le)
        rw [hnat, Array.getElem?_eq_getElem hig] at howner
        exact Option.some.inj howner
    by_cases hn : h'.owners[i] = ObjectId.null
    · rw [hn]
      by_contra hne
      rw [← (hat hp' hi' _ hne).2 (hpos ▸ (hat hp hi _ hne).1 rfl)] at hne
      exact hne hn
    · rw [hat hp hi _ hn, hpos]
      exact (hat hp' hi' _ hn).1 rfl
  obtain ⟨owners, positions, topCell, techLib, timingLib⟩ := h
  have htop : topCell = h'.topCell := hactive .topCell
  have htech : techLib = h'.techLib := hactive .techLib
  have htiming : timingLib = h'.timingLib := hactive .timingLib
  simp only at howners hpos
  rw [howners, hpos, htop, htech, htiming]

theorem Stays.takes {f : StorageScope → StorageScope} (hf : Stays f) (t : StorageScope)
    (id : ObjectId) : (f t).takes id = t.takes id := by
  rw [StorageScope.takes, StorageScope.takes, hf.owner, hf.tag]

namespace Database

open Registry

variable {ε : Type} {db db' : Database} {o d c p : ObjectId} {s sd : StorageScope}

theorem eq_of_parts (hc : db.config = db'.config) (hh : db.hierarchy = db'.hierarchy)
    (hr : db.registry = db'.registry) (hs : db.scopes = db'.scopes) : db = db' := by
  obtain ⟨config, hierarchy, registry, scopes⟩ := db
  simp only at hc hh hr hs
  rw [hc, hh, hr, hs]

/-- The scope of `c` lies inside that of `p`, and is another one. -/
def Below (db : Database) : ObjectId → ObjectId → Prop :=
  Relation.TransGen (Within db.scopes)

theorem inside_iff_below : Inside db.scopes o c ↔ c = o ∨ db.Below o c :=
  Relation.reflTransGen_iff_eq_or_transGen

/-! ## What lies inside a scope when another was closed -/

theorem Below.open_above (h : db.Below o d) (hf : Forest db.scopes) :
    ∃ s, db.scope? o = some s := by
  obtain ⟨_, ⟨s, hs, _, hp⟩, _⟩ := Relation.TransGen.head'_iff.1 h
  obtain ⟨q, hq, rfl, _⟩ := hf.parent s hs o hp
  exact ⟨q, scope?_of_mem hf hq⟩

theorem Below.not_inside (h : db.Below o d) (hf : Forest db.scopes) :
    ¬ Inside db.scopes d o := by
  intro hin
  exact hf.not_transGen_self (Relation.TransGen.trans_left h hin)

theorem doomed_subset (hf : Forest db.scopes) (hb : db.Below o d) : db.doomed d ⊆ db.doomed o := by
  intro t ht
  obtain ⟨ht, hin⟩ := (mem_doomed hf).1 ht
  exact (mem_doomed hf).2 ⟨ht, inside_iff_below.2 (Or.inr (Relation.TransGen.trans_left hb hin))⟩

section Inner

variable (h : db.Tidy) (hd : db.scope? d = some sd)
include h hd

theorem within_after_destroyScope :
    Within (after (destroyScope d : EStateM ε Database Bool) db).scopes p c ↔
      Within db.scopes p c ∧ ¬ Inside db.scopes d c := by
  have hstays := stays_keepsOf d sd
  rw [scopes_after_destroyScope h hd]
  constructor
  · rintro ⟨t', ht', rfl, hp⟩
    obtain ⟨t, ht, rfl⟩ := List.mem_map.1 ht'
    obtain ⟨ht, hn⟩ := List.mem_filter.1 ht
    rw [hstays.parent] at hp
    rw [hstays.owner]
    refine ⟨⟨t, ht, rfl, hp⟩, fun hin => ?_⟩
    exact of_decide_eq_true hn ((mem_doomed h.forest).2 ⟨ht, hin⟩)
  · rintro ⟨⟨t, ht, rfl, hp⟩, hn⟩
    have hn : t ∉ db.doomed d := fun hmem => hn ((mem_doomed h.forest).1 hmem).2
    exact ⟨keepsOf d sd t, List.mem_map_of_mem (List.mem_filter.2 ⟨ht, decide_eq_true hn⟩),
      hstays.owner t, (hstays.parent t).trans hp⟩

/-- The scope is closed for good, and what lies inside it with it. -/
theorem scope?_after_destroyScope_eq_none {e : ObjectId}
    (he : db.scope? e = none ∨ Inside db.scopes d e) :
    (after (destroyScope d : EStateM ε Database Bool) db).scope? e = none := by
  rw [scope?, scopes_after_destroyScope h hd, List.find?_eq_none]
  refine List.forall_mem_map.2 fun t ht => ?_
  obtain ⟨ht, hn⟩ := List.mem_filter.1 ht
  rw [(stays_keepsOf d sd).owner]
  rcases he with he | hin
  · exact List.find?_eq_none.1 he t ht
  · rw [decide_eq_true_eq]
    rintro rfl
    exact of_decide_eq_true hn ((mem_doomed h.forest).2 ⟨ht, hin⟩)

/-- What does not lie inside the scope that was closed lies below what it did before. -/
theorem below_after_destroyScope :
    (after (destroyScope d : EStateM ε Database Bool) db).Below o c ↔
      db.Below o c ∧ ¬ Inside db.scopes d c := by
  constructor
  · intro hb
    induction hb with
    | single hw =>
      obtain ⟨hw, hn⟩ := (within_after_destroyScope h hd).1 hw
      exact ⟨Relation.TransGen.single hw, hn⟩
    | tail _ hw ih =>
      obtain ⟨hw, hn⟩ := (within_after_destroyScope h hd).1 hw
      exact ⟨ih.1.tail hw, hn⟩
  · rintro ⟨hb, hn⟩
    induction hb with
    | single hw => exact Relation.TransGen.single ((within_after_destroyScope h hd).2 ⟨hw, hn⟩)
    | tail _ hw ih =>
      -- the scope around one that stays is not inside one that goes
      have hup := ih fun hin => hn (hin.tail hw)
      exact hup.tail ((within_after_destroyScope h hd).2 ⟨hw, hn⟩)

end Inner

/-! ## Closing a scope that lies inside another before the other -/

section Before

variable (h : db.Tidy) (hb : db.Below o d) (hd : db.scope? d = some sd)
include h hb hd

theorem mem_doomed_after_destroyScope {t : StorageScope} :
    t ∈ (after (destroyScope d : EStateM ε Database Bool) db).doomed o ↔
      ∃ t₀ ∈ db.doomed o, t₀ ∉ db.doomed d ∧ keepsOf d sd t₀ = t := by
  have hinside {x : ObjectId} :
      Inside (after (destroyScope d : EStateM ε Database Bool) db).scopes o x ↔
        Inside db.scopes o x ∧ ¬ Inside db.scopes d x := by
    rw [inside_iff_below, inside_iff_below, below_after_destroyScope h hd]
    constructor
    · rintro (rfl | ⟨hx, hn⟩)
      · exact ⟨Or.inl rfl, hb.not_inside h.forest⟩
      · exact ⟨Or.inr hx, hn⟩
    · rintro ⟨rfl | hx, hn⟩
      · exact Or.inl rfl
      · exact Or.inr ⟨hx, hn⟩
  rw [mem_doomed (h.destroyScope d).forest, hinside, scopes_after_destroyScope h hd]
  simp only [List.mem_map, List.mem_filter, decide_eq_true_eq, mem_doomed h.forest]
  constructor
  · rintro ⟨⟨t₀, ⟨ht, hn⟩, rfl⟩, hin, _⟩
    rw [(stays_keepsOf d sd).owner] at hin
    exact ⟨t₀, ⟨ht, hin⟩, hn, rfl⟩
  · rintro ⟨t₀, ⟨ht, hin⟩, hn, rfl⟩
    rw [(stays_keepsOf d sd).owner]
    exact ⟨⟨t₀, ⟨ht, hn⟩, rfl⟩, hin, fun hd => hn ⟨ht, hd⟩⟩

/-- What goes with both together is what goes with the outer one alone. -/
theorem any_doomed_after_destroyScope {b : StorageScope → Bool}
    (hk : ∀ t, b (keepsOf d sd t) = b t) :
    ((db.doomed d).any b ||
        ((after (destroyScope d : EStateM ε Database Bool) db).doomed o).any b) =
      (db.doomed o).any b := by
  rw [Bool.eq_iff_iff, Bool.or_eq_true]
  simp only [List.any_eq_true, mem_doomed_after_destroyScope h hb hd]
  constructor
  · rintro (⟨t, ht, hbt⟩ | ⟨_, ⟨t, ht, _, rfl⟩, hbt⟩)
    · exact ⟨t, doomed_subset h.forest hb ht, hbt⟩
    · exact ⟨t, ht, (hk t).symm.trans hbt⟩
  · rintro ⟨t, ht, hbt⟩
    by_cases htd : t ∈ db.doomed d
    · exact Or.inl ⟨t, htd, hbt⟩
    · exact Or.inr ⟨_, ⟨t, ht, htd, rfl⟩, (hk t).trans hbt⟩

/-- The scope around the inner one goes with the outer one, and not with the inner one. -/
theorem around_mem_doomed : ∃ q ∈ db.doomed o, q ∉ db.doomed d ∧ sd.parent = some q.owner ∧
    ScopeTag.of? d = some q.tag := by
  obtain ⟨hsd, rfl⟩ := of_scope? hd
  obtain ⟨p, hop, t, ht, hto, hp⟩ := Relation.TransGen.tail'_iff.1 hb
  have := h.forest.eq_of_owner ht hsd hto
  subst this
  obtain ⟨q, hq, rfl, hof, _⟩ := h.forest.parent t ht p hp
  refine ⟨q, (mem_doomed h.forest).2 ⟨hq, hop⟩, fun hmem => ?_, hp, hof⟩
  have hin := ((mem_doomed h.forest).1 hmem).2
  exact h.forest.not_transGen_self (Relation.TransGen.tail' hin ⟨t, ht, rfl, hp⟩)

/-- The scopes that both leave together are those that the outer one leaves alone. -/
theorem filter_doomed_after_destroyScope :
    (after (destroyScope d : EStateM ε Database Bool) db).scopes.filter
        (· ∉ (after (destroyScope d : EStateM ε Database Bool) db).doomed o) =
      db.scopes.filter (· ∉ db.doomed o) := by
  obtain ⟨q, hqo, _, hparent, _⟩ := around_mem_doomed h hb hd
  have hstays := stays_keepsOf d sd
  have hmem {t : StorageScope} := mem_doomed_after_destroyScope (ε := ε) h hb hd (t := t)
  have hgone (t : StorageScope) (ht : t ∈ db.scopes) :
      (decide (t ∉ db.doomed d) && decide (keepsOf d sd t ∉
          (after (destroyScope d : EStateM ε Database Bool) db).doomed o)) =
        decide (t ∉ db.doomed o) := by
    have hthen : keepsOf d sd t ∈ (after (destroyScope d : EStateM ε Database Bool) db).doomed o ↔
        t ∈ db.doomed o ∧ t ∉ db.doomed d := by
      rw [hmem]
      constructor
      · rintro ⟨t₀, hto, htd, he⟩
        have howner : t₀.owner = t.owner := by rw [← hstays.owner t₀, he, hstays.owner]
        rw [← h.forest.eq_of_owner ((mem_doomed h.forest).1 hto).1 ht howner]
        exact ⟨hto, htd⟩
      · rintro ⟨hto, htd⟩
        exact ⟨t, hto, htd, rfl⟩
    have hsub := @doomed_subset db o d h.forest hb t
    simp only [hthen, ← Bool.decide_and, decide_eq_decide]
    tauto
  -- the scope that was changed by hand is among those that go
  have hkept (t : StorageScope) (ht : t ∈ db.scopes.filter (· ∉ db.doomed o)) :
      keepsOf d sd t = t := by
    obtain ⟨ht, hn⟩ := List.mem_filter.1 ht
    refine if_neg fun hp => of_decide_eq_true hn ?_
    rw [hparent, Option.some.injEq] at hp
    rwa [← h.forest.eq_of_owner (mem_doomed h.forest |>.1 hqo).1 ht hp]
  rw [scopes_after_destroyScope h hd, List.filter_map, List.filter_filter]
  refine .trans ?_ ((List.map_congr_left hkept).trans (List.map_id _))
  refine congrArg (List.map _) (List.filter_congr fun t ht => ?_)
  rw [← hgone t ht, Bool.and_comm]
  rfl

/-- Closing the outer scope leaves the same, whether the inner one was closed before or
not. -/
theorem closes_eq_after_destroyScope {db₁ db₂ : Database} (hc : Closes (db.doomed o) db db₁)
    (hc' : Closes ((after (destroyScope d : EStateM ε Database Bool) db).doomed o)
      (after (destroyScope d : EStateM ε Database Bool) db) db₂) : db₂ = db₁ := by
  obtain ⟨db₀, hc₀, hr⟩ := destroyScope_eq (ε := ε) h hd
  obtain ⟨q, hqo, hqd, _, hof⟩ := around_mem_doomed h hb hd
  have hstays := stays_keepsOf d sd
  have hscopes := filter_doomed_after_destroyScope (ε := ε) h hb hd
  have hmem {t : StorageScope} := mem_doomed_after_destroyScope (ε := ε) h hb hd (t := t)
  have hall {b : StorageScope → Bool} := any_doomed_after_destroyScope (ε := ε) h hb hd (b := b)
  generalize hdb' : after (destroyScope d : EStateM ε Database Bool) db = db'
    at hc' hscopes hmem hall
  rw [after_ok hr] at hdb'
  have hhierarchy : db'.hierarchy = db₀.hierarchy := hdb' ▸ rfl
  have hregistry : db'.registry = after (onIssuer d (Pool.free (ε := ε) d)) db₀.registry :=
    hdb' ▸ rfl
  refine eq_of_parts ?_ ?_ ?_ ?_
  · rw [hc'.config, hc.config, ← hc₀.config, ← hdb']
  · refine Hierarchy.eq_of_positions hc'.paired hc.paired ?_ ?_ fun a => ?_
    · rw [hc'.size, hc.size, hhierarchy, hc₀.size]
    · have htakes (id : ObjectId) := hall (b := (·.takes id)) fun t => hstays.takes t id
      rw [hc'.positions, hc.positions, hhierarchy, hc₀.positions]
      simp only [Assoc.filter, List.filter_filter, ← htakes, Bool.not_or, Bool.and_comm]
    · have howner (id : ObjectId) := hall (b := (·.owner = id)) fun t => by rw [hstays.owner]
      rw [hc'.active, hc.active, hhierarchy, hc₀.active, Option.filter_filter]
      simp only [← howner, Bool.not_or]
  · have htag (t : ScopeTag) := hall (b := (·.tag = t)) fun t => by rw [hstays.tag]
    have hlost : ((db'.doomed o).any (·.tag = q.tag)) = true :=
      List.any_eq_true.2 ⟨_, hmem.2 ⟨q, hqo, hqd, rfl⟩, decide_eq_true (hstays.tag q)⟩
    rw [hc'.registry, hc.registry, hregistry,
      less_after_onIssuer (Pool.scope_after_free d) hof hlost, hc₀.registry, less_less]
    simp only [htag]
  · rw [hc'.scopes, hc.scopes, hscopes]

/-- What is done by hand before a scope is closed makes no difference afterwards. -/
theorem destroyScope_after_inner :
    (destroyScope o : EStateM ε Database Bool)
        (after (destroyScope d : EStateM ε Database Bool) db) =
      (destroyScope o : EStateM ε Database Bool) db := by
  obtain ⟨s, ho⟩ := hb.open_above h.forest
  obtain ⟨hs, hso⟩ := of_scope? ho
  have ht := h.destroyScope (ε := ε) d
  have hn : s ∉ db.doomed d := fun hmem =>
    hb.not_inside h.forest (hso ▸ ((mem_doomed h.forest).1 hmem).2)
  have ho' : (after (destroyScope d : EStateM ε Database Bool) db).scope? o =
      some (keepsOf d sd s) := by
    refine (find?_key_eq_some_iff StorageScope.owner ht.forest.owners).2 ⟨?_, ?_⟩
    · rw [scopes_after_destroyScope h hd]
      exact List.mem_map_of_mem (List.mem_filter.2 ⟨hs, decide_eq_true hn⟩)
    · rw [(stays_keepsOf d sd).owner, hso]
  have hparent := (stays_keepsOf d sd).parent s
  generalize keepsOf d sd s = s' at ho' hparent
  have hkeeps : keepsOf o s' = keepsOf o s := by
    funext t
    simp only [keepsOf, hparent]
  obtain ⟨db₁, hc, hr⟩ := destroyScope_eq (ε := ε) h ho
  obtain ⟨db₂, hc', hr'⟩ := destroyScope_eq (ε := ε) ht ho'
  rw [hr, hr', closes_eq_after_destroyScope h hb hd hc hc', hkeeps]

end Before

/-- Closes the scopes of some owners one after the other, as far as they are open. -/
def destroyScopes (l : List ObjectId) : EStateM ε Database Unit :=
  l.forM fun d => discard (destroyScope d)

/-- A list of owners is worked off, each of which had its scope below that of `o` and may have
lost it since. -/
theorem destroyScope_after_inners (h : db.Tidy) {l : List ObjectId}
    (hl : ∀ d ∈ l, db.Below o d ∨ db.scope? d = none) :
    (do destroyScopes l; destroyScope o : EStateM ε Database Bool) db =
      (destroyScope o : EStateM ε Database Bool) db := by
  induction l generalizing db with
  | nil => rfl
  | cons d l ih =>
    obtain ⟨b, hb⟩ := destroyScope_ok (ε := ε) h d
    have hfirst : (do destroyScopes (d :: l); destroyScope o : EStateM ε Database Bool) db =
        (do destroyScopes l; destroyScope o : EStateM ε Database Bool)
          (after (destroyScope d : EStateM ε Database Bool) db) := by
      simp only [destroyScopes, List.forM_eq_forM, List.forM_cons, bind_apply, discard_apply]
      rw [hb]
    rw [hfirst, ih (h.destroyScope d)]
    · cases hd : db.scope? d with
      | none => rw [after_ok (destroyScope_of_none hd)]
      | some sd =>
        have hdb : db.Below o d := (hl d List.mem_cons_self).resolve_right (by simp [hd])
        exact destroyScope_after_inner h hdb hd
    · intro e he
      have hold := hl e (List.mem_cons_of_mem d he)
      cases hd : db.scope? d with
      | none => rwa [after_ok (destroyScope_of_none hd)]
      | some sd =>
        by_cases hin : Inside db.scopes d e
        · exact Or.inr (scope?_after_destroyScope_eq_none h hd (Or.inr hin))
        · exact hold.imp (fun hb => (below_after_destroyScope h hd).2 ⟨hb, hin⟩)
            fun hn => scope?_after_destroyScope_eq_none h hd (Or.inl hn)

end Database

/-- After any run that restores no hierarchy, the scopes that lie below a scope can be closed by
hand before it, all or some of them and in any order, also where one goes with another.  Closing
the scope then answers what it would have answered, and leaves the database it would have
left. -/
theorem destroyScope_any_order {c : StoreConfig} {start : Database}
    (h : Database.new c = .ok start) {cmds : List Command}
    (hcmds : ∀ l, .restoreHierarchy l ∉ cmds) {o : ObjectId} {l : List ObjectId}
    (hl : ∀ d ∈ l, (Database.run cmds start).Below o d) :
    (do Database.destroyScopes l; Database.destroyScope o : Edit Bool)
        (Database.run cmds start) =
      (Database.destroyScope o : Edit Bool) (Database.run cmds start) :=
  Database.destroyScope_after_inners (Database.tidy_run h hcmds) fun d hd => Or.inl (hl d hd)

/-- Three cells below the top cell, the second inside the first.  The second goes with the first,
before its turn comes. -/
theorem destroyScope_any_order_nested :
    let top := Session.firstPage 1 .cell 0 0
    let outer := Session.firstPage 1 .cell 0 1
    let inner := Session.firstPage 2 .cell 0 0
    let side := Session.firstPage 1 .cell 0 2
    let cmds : List Command := [.initTopCell "top", .createHierCell top "outer",
      .createHierCell outer "inner", .createHierCell top "side",
      .properties outer (discard <| PropertyTable.set outer "p" (.bool true)),
      .create .inst .inst inner]
    let db := Database.run cmds (Database.empty {})
    (∀ l, .restoreHierarchy l ∉ cmds) ∧ (∀ d ∈ [outer, inner, side], db.Below top d) ∧
      db.subtree top = [top, outer, side, inner] ∧
      (do Database.destroyScopes [outer, inner, side]; Database.destroyScope top : Edit Bool) db =
        (Database.destroyScope top : Edit Bool) db := by
  intro top outer inner side cmds db
  have hcmds : ∀ l, .restoreHierarchy l ∉ cmds := by simp [cmds]
  have hsubtree : db.subtree top = [top, outer, side, inner] := by decide +kernel
  have hforest : Forest db.scopes := (Database.tidy_run (c := {}) rfl hcmds).forest
  have hbelow : ∀ d ∈ [outer, inner, side], db.Below top d := by
    intro d hd
    have hmem : d ∈ db.subtree top := by
      rw [hsubtree]
      simp only [List.mem_cons, List.not_mem_nil, or_false] at hd ⊢
      tauto
    have hne : d ≠ top := by
      rintro rfl
      revert hd
      decide
    exact (Database.inside_iff_below.1 ((Database.mem_subtree hforest).1 hmem)).resolve_left hne
  exact ⟨hcmds, hbelow, hsubtree, destroyScope_any_order (c := {}) rfl hcmds hbelow⟩

end DesignStore
