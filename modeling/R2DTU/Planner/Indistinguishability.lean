import R2DTU.Planner.Completeness
import R2DTU.Planner.Congruence

/-!
# Indistinguishability during the search

When every agent starts with an equivalence on worlds and every action has one on events, the
relations stay symmetric and transitive in every state of the search: pairs of the product are pairs
of both factors, the shift restricts, and the loop the split leaves to the owner is symmetric and
transitive too. It is not reflexive where the state has other worlds. So reflexivity is kept for an
agent along the branches on which it performs no action, and only there.

Each of the three operations has one lemma for the two properties (`symTrans_…`) and one for
reflexivity (`reflexive_…`); the graph comes in last. A node other than the root was made from its
parent by one of two steps, `Searching.node_cases`, and the results about whole graphs are
inductions over it.
-/

namespace Del

variable {order : HashOrder} {goal : BuiltFormula} {library : ActionLibrary} {init s : State}
  {a : Action} {agent : ℕ} {g : Graph}

/-- The agent's pairs are closed under reversal and composition. -/
structure State.SymTrans (s : State) (agent : ℕ) : Prop where
  symm {u v : ℕ} (h : ⟨u, v⟩ ∈ s.getIndistinguishabilityRelations agent) :
    ⟨v, u⟩ ∈ s.getIndistinguishabilityRelations agent
  trans {u v w : ℕ} (h : ⟨u, v⟩ ∈ s.getIndistinguishabilityRelations agent)
    (h' : ⟨v, w⟩ ∈ s.getIndistinguishabilityRelations agent) :
    ⟨u, w⟩ ∈ s.getIndistinguishabilityRelations agent

/-- The agent has a loop at every world. -/
def State.Reflexive (s : State) (agent : ℕ) : Prop :=
  ∀ w < s.worlds.length, ⟨w, w⟩ ∈ s.getIndistinguishabilityRelations agent

/-- The agent's pairs of events are an equivalence on the events of the action. -/
structure Action.Equivalence (a : Action) (agent : ℕ) : Prop where
  refl {e : ActionEvent} (he : e ∈ a.events) : a.isOneReachable agent e.id e.id = true
  symm {e f : ActionEvent} (he : e ∈ a.events) (hf : f ∈ a.events)
    (h : a.isOneReachable agent e.id f.id = true) : a.isOneReachable agent f.id e.id = true
  trans {d e f : ActionEvent} (hd : d ∈ a.events) (he : e ∈ a.events) (hf : f ∈ a.events)
    (h : a.isOneReachable agent d.id e.id = true)
    (h' : a.isOneReachable agent e.id f.id = true) : a.isOneReachable agent d.id f.id = true

/-! ### The operations -/

theorem event_mem_of_getElem? {k : ℕ} {p : World × ActionEvent}
    (h : (productPairs s a)[k]? = some p) : p.1 ∈ s.worlds ∧ p.2 ∈ a.events := by
  obtain ⟨hw, he, -⟩ := mem_productPairs.1 (List.mem_of_getElem? h)
  exact ⟨hw, he⟩

theorem symTrans_performProductUpdate (hs : s.SymTrans agent) (ha : a.Equivalence agent) :
    (performProductUpdate s a).SymTrans agent := by
  constructor
  · intro k l h
    rw [mem_relations_performProductUpdate] at h ⊢
    obtain ⟨hlt, p, q, hp, hq, hr⟩ := h
    obtain ⟨hw, he⟩ := productRelated_iff.1 hr
    exact ⟨hlt, q, p, hq, hp, productRelated_iff.2 ⟨hs.symm hw,
      ha.symm (event_mem_of_getElem? hp).2 (event_mem_of_getElem? hq).2 he⟩⟩
  · intro k l m h h'
    rw [mem_relations_performProductUpdate] at h h' ⊢
    obtain ⟨hlt, p, q, hp, hq, hr⟩ := h
    obtain ⟨-, q', r, hq', hr', hs'⟩ := h'
    obtain rfl := Option.some.inj (hq.symm.trans hq')
    obtain ⟨hw, he⟩ := productRelated_iff.1 hr
    obtain ⟨hw', he'⟩ := productRelated_iff.1 hs'
    exact ⟨hlt, p, r, hp, hr', productRelated_iff.2 ⟨hs.trans hw hw',
      ha.trans (event_mem_of_getElem? hp).2 (event_mem_of_getElem? hq).2
        (event_mem_of_getElem? hr').2 he he'⟩⟩

theorem reflexive_performProductUpdate (hwf : s.WellFormed) (hs : s.Reflexive agent)
    (ha : a.Equivalence agent) (hagent : agent < s.numberOfAgents) :
    (performProductUpdate s a).Reflexive agent := by
  intro k hk
  rw [length_worlds_performProductUpdate] at hk
  have hp := List.getElem?_eq_getElem hk
  obtain ⟨hw, he⟩ := event_mem_of_getElem? hp
  rw [mem_relations_performProductUpdate]
  exact ⟨hagent, _, _, hp, hp, productRelated_iff.2 ⟨hs _ (hwf.getWorld_id hw).1, ha.refl he⟩⟩

theorem symTrans_performPerspectiveShift {owner : ℕ} (hs : s.SymTrans agent) :
    (performPerspectiveShift order s owner).SymTrans agent := by
  constructor
  · intro k l h
    rw [mem_relations_performPerspectiveShift] at h ⊢
    obtain ⟨hlt, u, v, hu, hv, hr⟩ := h
    exact ⟨hlt, v, u, hv, hu, hs.symm hr⟩
  · intro k l m h h'
    rw [mem_relations_performPerspectiveShift] at h h' ⊢
    obtain ⟨hlt, u, v, hu, hv, hr⟩ := h
    obtain ⟨-, v', w, hv', hw, hr'⟩ := h'
    obtain rfl := Option.some.inj (hv.symm.trans hv')
    exact ⟨hlt, u, w, hu, hw, hs.trans hr hr'⟩

/-- An agent reaches existing worlds only. -/
theorem State.WellFormed.lt_of_reaches (hwf : s.WellFormed) {owner w : ℕ}
    (h : (s.model id).Reaches owner w) : w < s.worlds.length := by
  obtain ⟨d, hd, hpath⟩ := h
  cases hpath with
  | refl => exact hwf.designated_lt hd
  | tail _ hr => exact (hwf.relation_lt hr).2

theorem reflexive_performPerspectiveShift {owner : ℕ} (hwf : s.WellFormed)
    (hs : s.Reflexive agent) (hagent : agent < s.numberOfAgents) :
    (performPerspectiveShift order s owner).Reflexive agent := by
  intro k hk
  rw [length_worlds_performPerspectiveShift] at hk
  have hu := List.getElem?_eq_getElem hk
  rw [mem_relations_performPerspectiveShift]
  exact ⟨hagent, _, _, hu, hu, hs _ (hwf.lt_of_reaches (exists_index_shift.1 ⟨k, hu⟩))⟩

theorem symTrans_setGlobalForAgent {owner w : ℕ} (hs : s.SymTrans agent) :
    (s.setGlobalForAgent owner w).SymTrans agent := by
  constructor
  · intro u v h
    rw [mem_relations_setGlobalForAgent] at h ⊢
    split_ifs at h ⊢ with howner
    · exact ⟨h.1, h.2.2, h.2.1⟩
    · exact hs.symm h
  · intro u v x h h'
    rw [mem_relations_setGlobalForAgent] at h h' ⊢
    split_ifs at h h' ⊢ with howner
    · exact ⟨h.1, h.2.1, h'.2.2⟩
    · exact hs.trans h h'

theorem reflexive_setGlobalForAgent {owner w : ℕ} (hs : s.Reflexive agent)
    (hne : agent ≠ owner) : (s.setGlobalForAgent owner w).Reflexive agent := by
  intro u hu
  rw [mem_relations_setGlobalForAgent, if_neg hne]
  exact hs u hu

/-! ### Nodes of the search -/

/-- **Where a node comes from**: it is the root, or an action of the library took the state of its
parent to its own, or it is one of the global states of its parent. -/
theorem Searching.node_cases (h : Searching order goal library init (fun _ ↦ False) g) {i : ℕ}
    (hi : i < g.nodes.length) :
    (i = 0 ∧ (g.getNode i).state = init) ∨
      ∃ p, p < i ∧ i ∈ (g.getNode p).children ∧
        (((g.getNode p).type = .or ∧ (g.getNode i).actionFromParent ∈ library.actions ∧
            (g.getNode i).state = performProductUpdate (performPerspectiveShift order
              (g.getNode p).state (g.getNode i).actionFromParent.owner)
                (g.getNode i).actionFromParent) ∨
          ((g.getNode p).type = .and ∧ ∃ w ∈ (g.getNode p).state.designatedWorlds,
            (g.getNode i).state = (g.getNode p).state.setGlobalForAgent
              (g.getNode p).actionFromParent.owner w)) := by
  rcases Nat.eq_zero_or_pos i with rfl | hpos
  · exact Or.inl ⟨rfl, h.root_state⟩
  have hlt := h.linked.parent_lt hi (Nat.ne_of_gt hpos)
  have hmem := h.linked.mem_children_parent hi (Nat.ne_of_gt hpos)
  refine Or.inr ⟨_, hlt, hmem, ?_⟩
  have hp := hlt.trans hi
  rcases htype : (g.getNode (g.getNode i).parent).type with _ | _
  · have hmove : ((g.getNode i).actionFromParent, (g.getNode i).state) ∈
        g.childMoves (g.getNode i).parent := List.mem_map.2 ⟨i, hmem, rfl⟩
    rw [(h.expanded hp htype (List.ne_nil_of_mem hmem) id).2] at hmove
    obtain ⟨hlib, happly⟩ := mem_moves.1 hmove
    exact Or.inl ⟨rfl, hlib, (applyAction_eq_some_iff.1 happly).2.2⟩
  · have hstate : (g.getNode i).state ∈ (g.getNode (g.getNode i).parent).children.map
        fun c ↦ (g.getNode c).state := List.mem_map.2 ⟨i, hmem, rfl⟩
    rw [h.split hp htype] at hstate
    obtain ⟨w, hdes, hw⟩ := List.mem_map.1 hstate
    exact Or.inr ⟨rfl, w, hdes, hw.symm⟩

/-- Node `c` lies above node `i`. -/
def Graph.Above (g : Graph) : ℕ → ℕ → Prop :=
  Relation.TransGen fun p c ↦ c ∈ (g.getNode p).children

/-- Every node has a well-formed state. -/
theorem Searching.wellFormed_state (h : Searching order goal library init (fun _ ↦ False) g)
    (hwf : init.WellFormed) {i : ℕ} (hi : i < g.nodes.length) :
    (g.getNode i).state.WellFormed := by
  induction i using Nat.strong_induction_on with
  | h i ih =>
    rcases h.node_cases hi with
      ⟨-, hstate⟩ | ⟨p, hlt, -, ⟨-, -, hstate⟩ | ⟨-, w, hw, hstate⟩⟩
    · exact hstate ▸ hwf
    · exact hstate ▸ wellFormed_performProductUpdate _ _
    · rw [hstate]
      exact wellFormed_of_mem_splitIntoGlobalStates (ih p hlt (hlt.trans hi))
        (List.mem_map.2 ⟨w, hw, rfl⟩)

/-- The agent performs no action above the node. -/
def Graph.Passive (g : Graph) (agent i : ℕ) : Prop :=
  ∀ c, g.Above c i → (g.getNode c).type = .and → (g.getNode c).actionFromParent.owner ≠ agent

theorem Graph.Passive.parent {p i : ℕ} (h : g.Passive agent i)
    (hmem : i ∈ (g.getNode p).children) : g.Passive agent p :=
  fun c hc htype ↦ h c (hc.tail hmem) htype

/-- What is kept in the state of a node, besides the number of agents. -/
structure Kept (init : State) (g : Graph) (i : ℕ) : Prop where
  wellFormed : (g.getNode i).state.WellFormed
  agents_eq : (g.getNode i).state.numberOfAgents = init.numberOfAgents
  symTrans {agent : ℕ} (h : agent < init.numberOfAgents) : (g.getNode i).state.SymTrans agent
  reflexive {agent : ℕ} (h : agent < init.numberOfAgents) (hp : g.Passive agent i) :
    (g.getNode i).state.Reflexive agent

/-- **Every node of the search keeps it**, by induction from the root down. -/
theorem Searching.kept (h : Searching order goal library init (fun _ ↦ False) g)
    (hwf : init.WellFormed)
    (hinit : ∀ agent < init.numberOfAgents, init.SymTrans agent ∧ init.Reflexive agent)
    (hlib : ∀ a ∈ library.actions, ∀ agent < init.numberOfAgents, a.Equivalence agent) {i : ℕ}
    (hi : i < g.nodes.length) : Kept init g i := by
  induction i using Nat.strong_induction_on with
  | h i ih =>
    rcases h.node_cases hi with
      ⟨-, hstate⟩ | ⟨p, hlt, hmem, ⟨-, hact, hstate⟩ | ⟨hand, w, hw, hstate⟩⟩
    · exact ⟨hstate ▸ hwf, hstate ▸ rfl, fun hagent ↦ hstate ▸ (hinit _ hagent).1,
        fun hagent _ ↦ hstate ▸ (hinit _ hagent).2⟩
    · have hp := ih p hlt (hlt.trans hi)
      refine ⟨hstate ▸ wellFormed_performProductUpdate _ _, hstate ▸ hp.agents_eq,
        fun hagent ↦ ?_, fun hagent hpass ↦ ?_⟩
      · rw [hstate]
        exact symTrans_performProductUpdate
          (symTrans_performPerspectiveShift (hp.symTrans hagent)) (hlib _ hact _ hagent)
      · rw [hstate]
        have hrefl := hp.reflexive hagent (hpass.parent hmem)
        have hagent' := hp.agents_eq.symm ▸ hagent
        exact reflexive_performProductUpdate (wellFormed_performPerspectiveShift ..)
          (reflexive_performPerspectiveShift hp.wellFormed hrefl hagent') (hlib _ hact _ hagent)
          hagent'
    · have hp := ih p hlt (hlt.trans hi)
      refine ⟨?_, hstate ▸ hp.agents_eq, fun hagent ↦ ?_, fun hagent hpass ↦ ?_⟩
      · rw [hstate]
        exact wellFormed_of_mem_splitIntoGlobalStates hp.wellFormed (List.mem_map.2 ⟨w, hw, rfl⟩)
      · rw [hstate]
        exact symTrans_setGlobalForAgent (hp.symTrans hagent)
      · rw [hstate]
        exact reflexive_setGlobalForAgent (hp.reflexive hagent (hpass.parent hmem))
          (hpass p (.single hmem) hand).symm

/-! ### Graphs of a run -/

/-- **Indistinguishability during the search.** In every graph the search goes through, the relation
of every agent is symmetric and transitive in the state of every node, and it is reflexive for the
agents that perform no action above the node. -/
theorem relations_of_searchReaches (order : HashOrder) (goal : BuiltFormula)
    (library : ActionLibrary) (init : State) (hwf : init.WellFormed)
    (hinit : ∀ agent < init.numberOfAgents, init.SymTrans agent ∧ init.Reflexive agent)
    (hlib : ∀ a ∈ library.actions, ∀ agent < init.numberOfAgents, a.Equivalence agent)
    (g : Graph) (hg : SearchReaches order goal library init g) :
    ∀ i < g.nodes.length, ∀ agent < init.numberOfAgents,
      (g.getNode i).state.SymTrans agent ∧
        (g.Passive agent i → (g.getNode i).state.Reflexive agent) := by
  intro i hi agent hagent
  have hkept := hg.ready.searching.kept hwf hinit hlib hi
  exact ⟨hkept.symTrans hagent, hkept.reflexive hagent⟩

theorem Twins.equivalence : ∀ agent < Twins.state.numberOfAgents,
    Twins.state.SymTrans agent ∧ Twins.state.Reflexive agent := by
  intro agent hagent
  obtain rfl : agent = 0 := Nat.lt_one_iff.1 hagent
  have hrel : ∀ {u v}, ⟨u, v⟩ ∈ Twins.state.getIndistinguishabilityRelations 0 ↔ u < 2 ∧ v < 2 := by
    intro u v
    simp only [Twins.state, State.getIndistinguishabilityRelations, List.getD_cons_zero,
      List.mem_cons, WorldRelation.mk.injEq, List.not_mem_nil, or_false]
    omega
  refine ⟨⟨fun h ↦ ?_, fun h h' ↦ ?_⟩, fun w hw ↦ hrel.2 ⟨hw, hw⟩⟩
  · rw [hrel] at h ⊢
    exact h.symm
  · rw [hrel] at h h' ⊢
    exact ⟨h.1, h'.2⟩

theorem equivalence_skipAction : ∀ agent < 1, (skipAction 1).Equivalence agent := by
  intro agent hagent
  obtain rfl : agent = 0 := Nat.lt_one_iff.1 hagent
  have hid : ∀ {e}, e ∈ (skipAction 1).events → e.id = 0 := fun he ↦ by
    rw [List.mem_singleton.1 he]
  have hloop : (skipAction 1).isOneReachable 0 0 0 = true := by decide
  refine ⟨fun he ↦ ?_, fun he hf _ ↦ ?_, fun hd _ hf _ _ ↦ ?_⟩
  · rwa [hid he]
  · rwa [hid he, hid hf]
  · rwa [hid hd, hid hf]

theorem relations_of_searchReaches_twins :
    SearchReaches HashOrder.insertion (BuiltFormula.prop "p") ⟨[skipAction 1]⟩ Twins.state
        (initialGraph Twins.state) ∧
      ∀ i < (initialGraph Twins.state).nodes.length, ∀ agent < Twins.state.numberOfAgents,
        ((initialGraph Twins.state).getNode i).state.SymTrans agent ∧
          ((initialGraph Twins.state).Passive agent i →
            ((initialGraph Twins.state).getNode i).state.Reflexive agent) :=
  ⟨.refl, relations_of_searchReaches HashOrder.insertion (BuiltFormula.prop "p") ⟨[skipAction 1]⟩
    Twins.state (by decide) Twins.equivalence
    (fun a ha ↦ List.mem_singleton.1 ha ▸ equivalence_skipAction) _ .refl⟩

/-- **Reflexivity is lost** by the owner of an action that changes nothing: its outcome has two
worlds, and a loop at one of them. -/
theorem searchReaches_not_reflexive :
    Twins.state.WellFormed ∧
      (∀ agent < Twins.state.numberOfAgents,
        Twins.state.SymTrans agent ∧ Twins.state.Reflexive agent) ∧
      (∀ agent < 1, (skipAction 1).Equivalence agent) ∧
      ∃ g,
        SearchReaches HashOrder.insertion (BuiltFormula.prop "p") ⟨[skipAction 1]⟩ Twins.state g ∧
        ∃ i < g.nodes.length, ¬ (g.getNode i).state.Reflexive 0 := by
  refine ⟨by decide, Twins.equivalence, equivalence_skipAction, ?_⟩
  have hround : ((findPolicyStep HashOrder.insertion (BuiltFormula.prop "p") ⟨[skipAction 1]⟩
      (initialGraph Twins.state)).getLeft?.map fun g ↦ (g.nodes.length, (g.getNode 2).state)) =
        some (4, ⟨1, [⟨0, ∅⟩, ⟨1, ∅⟩], [0], [[⟨0, 0⟩]]⟩) := by decide +kernel
  obtain ⟨g, hg, hpair⟩ := Option.map_eq_some_iff.1 hround
  obtain ⟨hlen, hstate⟩ := Prod.mk.inj hpair
  refine ⟨g, .single (Sum.getLeft?_eq_some_iff.1 hg), 2, by omega, fun h ↦ ?_⟩
  rw [hstate] at h
  exact absurd (h 1 (by decide)) (by decide)

end Del
