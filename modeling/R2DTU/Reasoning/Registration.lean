import R2DTU.Reasoning.EpistemicReasoning

/-!
# A registration starts the domain anew

`add_object` ends with `setup_domain`, which builds a domain from the registrations alone. The
registrations are changed by `reset`, `add_object`, `agent_appear` and `agent_disappear` and by
nothing else, so a session and the session without its other calls have the same registrations
(`exists_run_filter`). After the next registration the two have the same domain, and what was put
somewhere before is forgotten.

In a new domain the defaults are all false and the initial propositions are attention propositions,
so that no `in(fst,snd)` holds (`evaluate_setupDomain`).
-/

namespace Reasoning

/-! ### Look-ups over lists -/

section MapM

variable {α β : Type} {f : α → Option β}

theorem isSome_mapM {l : List α} (h : ∀ a ∈ l, (f a).isSome) : (l.mapM f).isSome := by
  induction l with
  | nil => rfl
  | cons a l ih =>
    obtain ⟨b, hb⟩ := Option.isSome_iff_exists.1 (h a List.mem_cons_self)
    obtain ⟨bs, hbs⟩ := Option.isSome_iff_exists.1 (ih fun c hc ↦ h c (List.mem_cons_of_mem _ hc))
    rw [List.mapM_cons, hb, hbs]
    rfl

theorem mem_of_mapM {l : List α} {bs : List β} (h : l.mapM f = some bs) {b : β} (hb : b ∈ bs) :
    ∃ a ∈ l, f a = some b := by
  induction l generalizing bs with
  | nil =>
    obtain rfl := Option.some.inj h
    exact absurd hb List.not_mem_nil
  | cons a l ih =>
    rw [List.mapM_cons] at h
    obtain ⟨c, hc, hrest⟩ := Option.bind_eq_some_iff.1 h
    obtain ⟨cs, hcs, he⟩ := Option.bind_eq_some_iff.1 hrest
    obtain rfl := Option.some.inj he
    rcases List.mem_cons.1 hb with rfl | hmem
    · exact ⟨a, List.mem_cons_self, hc⟩
    · obtain ⟨a', ha', hf⟩ := ih hcs hmem
      exact ⟨a', List.mem_cons_of_mem _ ha', hf⟩

/-- Recomputing the values of an association list keeps its keys, and look-ups find the new
values. -/
theorem lookup_mapM {γ : Type} {g : String → Option γ} {h : β → γ → β} {l l' : List (String × β)}
    (hl : l.mapM (fun p ↦ (g p.1).map fun c ↦ (p.1, h p.2 c)) = some l') :
    l'.map Prod.fst = l.map Prod.fst ∧
      ∀ k, l'.lookup k = (l.lookup k).bind fun b ↦ (g k).map (h b) := by
  induction l generalizing l' with
  | nil =>
    obtain rfl := Option.some.inj hl
    exact ⟨rfl, fun _ ↦ rfl⟩
  | cons p l ih =>
    rw [List.mapM_cons] at hl
    obtain ⟨q, hq, hrest⟩ := Option.bind_eq_some_iff.1 hl
    obtain ⟨qs, hqs, he⟩ := Option.bind_eq_some_iff.1 hrest
    obtain rfl := Option.some.inj he
    obtain ⟨c, hc, rfl⟩ := Option.map_eq_some_iff.1 hq
    obtain ⟨hkeys, hlookup⟩ := ih hqs
    refine ⟨by rw [List.map_cons, List.map_cons, hkeys], fun k ↦ ?_⟩
    rw [List.lookup_cons, List.lookup_cons]
    split
    · next heq =>
      rw [beq_iff_eq.1 heq, hc]
      rfl
    · exact hlookup k

theorem isSome_lookup {l : List (String × β)} {k : String} :
    (l.lookup k).isSome ↔ k ∈ l.map Prod.fst := by
  rw [List.lookup_isSome_iff, List.mem_map]
  exact exists_congr fun p ↦ and_congr_right fun _ ↦ beq_iff_eq.trans eq_comm

end MapM

variable {L : DelDomain} {order : Del.HashOrder}

namespace Registrations

variable {r : Registrations L}

/-! ### Setting up a domain -/

/-- The domain `setup_domain` creates. -/
def newDomain (r : Registrations L) : L.Domain :=
  L.create r.agents (propositions r.allObjects) ((propositions r.allObjects).map fun _ ↦ false)

/-- **What `setup_domain` does**: the agents get their ids and the domain its initial state, and
nothing else changes. -/
theorem setupDomain_eq_some_iff {e : EpistemicReasoning L} :
    r.setupDomain order = some e ↔
      ∃ infos initial, r.withIds r.newDomain = some infos ∧
        initialPropositions order r.newDomain (propositions r.allObjects) infos = some initial ∧
        { r with
          agentInfos := infos
          domain := (L.addInitialState r.newDomain initial).1
          latestState := (L.addInitialState r.newDomain initial).2 } = e := by
  rw [setupDomain]
  constructor
  · intro h
    obtain ⟨infos, hinfos, h⟩ := Option.bind_eq_some_iff.1 h
    obtain ⟨initial, hinitial, h⟩ := Option.bind_eq_some_iff.1 h
    exact ⟨infos, initial, hinfos, hinitial, Option.some.inj h⟩
  · rintro ⟨infos, initial, hinfos, hinitial, rfl⟩
    refine Option.bind_eq_some_iff.2 ⟨infos, hinfos, ?_⟩
    exact Option.bind_eq_some_iff.2 ⟨initial, hinitial, rfl⟩

/-- An initial proposition is an attention proposition. -/
theorem attention_of_mem_initialPropositions {d : L.Domain} {props : List String}
    {infos : List (String × Agent L)} {initial : List L.PropositionId}
    (h : initialPropositions order d props infos = some initial) {p : L.PropositionId}
    (hp : p ∈ initial) : ∃ a q, L.getAttentionPropositionId d a q = p := by
  obtain ⟨blocks, hblocks, rfl⟩ := Option.map_eq_some_iff.1 h
  obtain ⟨block, hblock, hpb⟩ := List.mem_flatten.1 hp
  obtain ⟨name, -, hname⟩ := mem_of_mapM hblocks hblock
  obtain ⟨a, -, ha⟩ := Option.bind_eq_some_iff.1 hname
  rw [attentionOf] at ha
  split_ifs at ha
  · obtain rfl := Option.some.inj ha
    exact absurd hpb List.not_mem_nil
  · obtain ⟨prop, -, hprop⟩ := mem_of_mapM ha hpb
    obtain ⟨q, -, rfl⟩ := Option.map_eq_some_iff.1 hprop
    exact ⟨a.id, q, rfl⟩

/-- **Nothing holds** of the declared propositions in a domain that has just been set up. -/
theorem evaluate_setupDomain (hL : L.Lawful) {e : EpistemicReasoning L}
    (h : r.setupDomain order = some e) {name : String} {p : L.PropositionId}
    (hp : L.getPropositionId e.domain name = some p) :
    L.evaluateFormula e.domain e.latestState (.prop p) = false := by
  obtain ⟨infos, initial, -, hinitial, rfl⟩ := setupDomain_eq_some_iff.1 h
  rw [hL.getPropositionId_addInitialState] at hp
  rw [← Bool.not_eq_true]
  intro htrue
  have hfalse : ∀ b ∈ (propositions r.allObjects).map fun _ ↦ false, b = false := fun b hb ↦
    (List.mem_map.1 hb).elim fun _ h ↦ h.2.symm
  have hmem := (hL.evaluate_initial hfalse hp).1 htrue
  obtain ⟨a, q, rfl⟩ := attention_of_mem_initialPropositions hinitial hmem
  exact hL.attention_ne hp rfl

theorem isSome_getPropositionId_setupDomain (hL : L.Lawful) {e : EpistemicReasoning L}
    (h : r.setupDomain order = some e) {name : String} :
    (L.getPropositionId e.domain name).isSome ↔ name ∈ propositions r.allObjects := by
  obtain ⟨infos, initial, -, -, rfl⟩ := setupDomain_eq_some_iff.1 h
  rw [hL.getPropositionId_addInitialState]
  exact hL.getPropositionId_create

/-! ### It succeeds -/

/-- Every agent with an entry is among the agents. -/
def Enrolled (r : Registrations L) : Prop := ∀ p ∈ r.agentInfos, p.1 ∈ r.agents

theorem isSome_withIds (hL : L.Lawful) (h : r.Enrolled) : (r.withIds r.newDomain).isSome := by
  refine isSome_mapM fun p hp ↦ ?_
  rw [Option.isSome_map]
  exact hL.getAgentId_create (h p hp)

theorem isSome_initialPropositions (hL : L.Lawful) (infos : List (String × Agent L)) :
    (initialPropositions order r.newDomain (propositions r.allObjects) infos).isSome := by
  rw [initialPropositions, Option.isSome_map]
  refine isSome_mapM fun name hname ↦ ?_
  obtain ⟨a, ha⟩ := Option.isSome_iff_exists.1
    (isSome_lookup.2 ((order.keys_perm _).mem_iff.1 hname))
  rw [ha, Option.bind_some, attentionOf]
  split_ifs
  · rfl
  · refine isSome_mapM fun prop hprop ↦ ?_
    rw [Option.isSome_map]
    exact hL.getPropositionId_create.2 hprop

/-- **Setting up succeeds.** -/
theorem isSome_setupDomain (hL : L.Lawful) (order : Del.HashOrder) (h : r.Enrolled) :
    (r.setupDomain order).isSome := by
  obtain ⟨infos, hinfos⟩ := Option.isSome_iff_exists.1 (isSome_withIds hL h)
  obtain ⟨initial, hinitial⟩ := Option.isSome_iff_exists.1
    (@isSome_initialPropositions L order r hL infos)
  exact Option.isSome_iff_exists.2
    ⟨_, setupDomain_eq_some_iff.2 ⟨infos, initial, hinfos, hinitial, rfl⟩⟩

/-- What setting up keeps: everything but the ids. -/
structure Kept (r r' : Registrations L) : Prop where
  allObjects : r'.allObjects = r.allObjects
  agents : r'.agents = r.agents
  storable : r'.storable = r.storable
  containers : r'.containers = r.containers
  names : r'.agentInfos.map Prod.fst = r.agentInfos.map Prod.fst
  state {a : String} {info : Agent L} : r.agentInfos.lookup a = some info →
    ∃ i, r'.agentInfos.lookup a = some ⟨i, info.state⟩

theorem kept_setupDomain {e : EpistemicReasoning L} (h : r.setupDomain order = some e) :
    r.Kept e.toRegistrations := by
  obtain ⟨infos, initial, hinfos, hinitial, rfl⟩ := setupDomain_eq_some_iff.1 h
  obtain ⟨hkeys, hlookup⟩ := @lookup_mapM (Agent L) L.AgentId (L.getAgentId r.newDomain)
    (fun info i ↦ ⟨i, info.state⟩) r.agentInfos infos hinfos
  refine ⟨rfl, rfl, rfl, rfl, hkeys, fun {a info} ha ↦ ?_⟩
  have hsome : (infos.lookup a).isSome := by
    rw [isSome_lookup, hkeys, ← isSome_lookup, ha]
    rfl
  rw [hlookup, ha, Option.bind_some, Option.isSome_map] at hsome
  obtain ⟨i, hi⟩ := Option.isSome_iff_exists.1 hsome
  refine ⟨i, ?_⟩
  rw [hlookup, ha, Option.bind_some, hi]
  rfl

theorem Kept.enrolled {r' : Registrations L} (h : r.Kept r') (hr : r.Enrolled) : r'.Enrolled := by
  intro p hp
  obtain ⟨q, hq, hqp⟩ := List.mem_map.1 (h.names ▸ List.mem_map_of_mem hp)
  rw [h.agents, ← hqp]
  exact hr q hq

/-! ### What the calls do to the registrations -/

theorem enrolled_addName (h : r.Enrolled) (type : EpistemicObjectType) (name : String) :
    (r.addName type name).Enrolled := by
  cases type with
  | storable => exact h
  | container => exact h
  | agent =>
    intro p hp
    show p.1 ∈ r.agents ++ [name]
    have hp' : p ∈ r.insertAgent name := hp
    rw [insertAgent] at hp'
    split_ifs at hp'
    · exact List.mem_append_left _ (h p hp')
    · rcases List.mem_append.1 hp' with hold | hnew
      · exact List.mem_append_left _ (h p hold)
      · rw [List.mem_singleton.1 hnew]
        exact List.mem_append_right _ (List.mem_singleton_self name)

theorem enrolled_setState (h : r.Enrolled) (name : String) (state : Presence) :
    (r.setState name state).Enrolled := by
  intro p hp
  obtain ⟨q, hq, rfl⟩ := List.mem_map.1 hp
  split_ifs
  · exact h q hq
  · exact h q hq

/-- Registering a name keeps the entries of the agents there are. -/
theorem lookup_addName (type : EpistemicObjectType) (name : String) {a : String} {info : Agent L}
    (h : r.agentInfos.lookup a = some info) :
    (r.addName type name).agentInfos.lookup a = some info := by
  cases type with
  | storable => exact h
  | container => exact h
  | agent =>
    show (r.insertAgent name).lookup a = some info
    rw [insertAgent]
    split_ifs
    · exact h
    · rw [List.lookup_append, h]
      rfl

end Registrations

namespace EpistemicReasoning

variable {e e' e₀ : EpistemicReasoning L}

/-- The calls that register something or change who is present. -/
def Call.registers : Call → Bool
  | .reset => true
  | .addObject _ _ => true
  | .agentAppear _ => true
  | .agentDisappear _ => true
  | .directConsciousAttention _ _ _ => false
  | .putInContainer _ _ _ => false
  | .takeOutOfContainer _ _ _ => false

theorem toRegistrations_actOn {act : L.Domain → L.AgentId → L.PropositionId → L.Domain × L.StateId}
    {agent object container : String} (h : e.actOn act agent object container = some e') :
    e'.toRegistrations = e.toRegistrations := by
  obtain ⟨a, -, h⟩ := Option.bind_eq_some_iff.1 h
  obtain ⟨p, -, h⟩ := Option.bind_eq_some_iff.1 h
  exact Option.some.inj h ▸ rfl

/-- **One call.** What it does to the registrations depends on the registrations only; calls that do
not register leave them alone. -/
theorem call_registrations {c : Call} (h : e.call order c = some e')
    (hreg : e.toRegistrations = e₀.toRegistrations) :
    if c.registers then ∃ e₀', e₀.call order c = some e₀' ∧ e'.toRegistrations = e₀'.toRegistrations
    else e'.toRegistrations = e₀.toRegistrations := by
  cases c with
  | reset => exact ⟨e', h, rfl⟩
  | addObject type name =>
    refine ⟨e', ?_, rfl⟩
    rw [← h, call, call, addObject, addObject, hreg]
  | agentAppear name =>
    obtain ⟨a, ha, h⟩ := Option.bind_eq_some_iff.1 h
    obtain rfl := Option.some.inj h
    rw [hreg] at ha
    exact ⟨_, Option.bind_eq_some_iff.2 ⟨a, ha, rfl⟩, by rw [hreg]⟩
  | agentDisappear name =>
    obtain ⟨a, ha, h⟩ := Option.bind_eq_some_iff.1 h
    obtain rfl := Option.some.inj h
    rw [hreg] at ha
    exact ⟨_, Option.bind_eq_some_iff.2 ⟨a, ha, rfl⟩, by rw [hreg]⟩
  | directConsciousAttention a o c =>
    rw [call, directConsciousAttention] at h
    exact (toRegistrations_actOn h).trans hreg
  | putInContainer a o c =>
    rw [call, putInContainer] at h
    exact (toRegistrations_actOn h).trans hreg
  | takeOutOfContainer a o c =>
    rw [call, takeOutOfContainer] at h
    exact (toRegistrations_actOn h).trans hreg

theorem exists_foldlM_filter {calls : List Call} (h : calls.foldlM (call order) e = some e')
    (hreg : e.toRegistrations = e₀.toRegistrations) :
    ∃ e₀', (calls.filter Call.registers).foldlM (call order) e₀ = some e₀' ∧
      e'.toRegistrations = e₀'.toRegistrations := by
  induction calls generalizing e e₀ with
  | nil =>
    obtain rfl := Option.some.inj h
    exact ⟨e₀, rfl, hreg⟩
  | cons c calls ih =>
    rw [List.foldlM_cons] at h
    obtain ⟨e₁, hc, hrest⟩ := Option.bind_eq_some_iff.1 h
    have hcall := call_registrations hc hreg
    split_ifs at hcall with hr
    · obtain ⟨e₀', hc', hreg'⟩ := hcall
      obtain ⟨e₀'', hrest', hreg''⟩ := ih hrest hreg'
      refine ⟨e₀'', ?_, hreg''⟩
      rw [List.filter_cons_of_pos hr, List.foldlM_cons, hc']
      exact hrest'
    · rw [List.filter_cons_of_neg hr]
      exact ih hrest hcall

/-- **The session without its other calls** has the same registrations. -/
theorem exists_run_filter {calls : List Call} (h : run L order calls = some e) :
    ∃ e₀, run L order (calls.filter Call.registers) = some e₀ ∧
      e.toRegistrations = e₀.toRegistrations := by
  obtain ⟨e₁, hreset, hcalls⟩ := Option.bind_eq_some_iff.1 h
  obtain ⟨e₀, hcalls', hreg⟩ := exists_foldlM_filter hcalls rfl
  exact ⟨e₀, Option.bind_eq_some_iff.2 ⟨e₁, hreset, hcalls'⟩, hreg⟩

theorem enrolled_reset (h : reset order = some e) : e.toRegistrations.Enrolled := by
  refine (Registrations.kept_setupDomain h).enrolled fun p hp ↦ ?_
  rw [List.mem_singleton.1 hp]
  exact List.mem_singleton_self _

theorem enrolled_call {c : Call} (h : e.call order c = some e') (he : e.toRegistrations.Enrolled) :
    e'.toRegistrations.Enrolled := by
  cases c with
  | reset => exact enrolled_reset h
  | addObject type name =>
    exact (Registrations.kept_setupDomain h).enrolled (Registrations.enrolled_addName he type name)
  | agentAppear name =>
    obtain ⟨a, -, h⟩ := Option.bind_eq_some_iff.1 h
    exact Option.some.inj h ▸ Registrations.enrolled_setState he name .present
  | agentDisappear name =>
    obtain ⟨a, -, h⟩ := Option.bind_eq_some_iff.1 h
    exact Option.some.inj h ▸ Registrations.enrolled_setState he name .away
  | directConsciousAttention a o c =>
    rw [call, directConsciousAttention] at h
    exact toRegistrations_actOn h ▸ he
  | putInContainer a o c =>
    rw [call, putInContainer] at h
    exact toRegistrations_actOn h ▸ he
  | takeOutOfContainer a o c =>
    rw [call, takeOutOfContainer] at h
    exact toRegistrations_actOn h ▸ he

/-- **What `reset` establishes and every call keeps** holds after every session. -/
theorem run_induct {P : EpistemicReasoning L → Prop} {calls : List Call}
    (h : run L order calls = some e) (hreset : ∀ {e}, reset order = some e → P e)
    (hcall : ∀ {e e' c}, P e → e.call order c = some e' → P e') : P e := by
  obtain ⟨e₁, he₁, hcalls⟩ := Option.bind_eq_some_iff.1 h
  have hP := hreset he₁
  clear h he₁
  induction calls generalizing e₁ with
  | nil => exact Option.some.inj hcalls ▸ hP
  | cons c calls ih =>
    rw [List.foldlM_cons] at hcalls
    obtain ⟨e₂, hc, hrest⟩ := Option.bind_eq_some_iff.1 hcalls
    exact ih e₂ hrest (hcall hP hc)

/-- The last call of a session. -/
theorem run_concat (calls : List Call) (c : Call) :
    run L order (calls ++ [c]) = (run L order calls).bind fun e ↦ e.call order c := by
  rw [run, run, Option.bind_assoc]
  congr 1
  funext e
  rw [List.foldlM_append]
  congr 1
  funext e
  rw [List.foldlM_cons]
  cases e.call order c <;> rfl

theorem exists_of_run_concat {calls : List Call} {c : Call}
    (h : run L order (calls ++ [c]) = some e) :
    ∃ e₁, run L order calls = some e₁ ∧ e₁.call order c = some e :=
  Option.bind_eq_some_iff.1 ((run_concat calls c).symm.trans h)

theorem enrolled_run {calls : List Call} (h : run L order calls = some e) :
    e.toRegistrations.Enrolled :=
  run_induct h enrolled_reset fun he hc ↦ enrolled_call hc he

/-! ### What is answered in a new domain -/

/-- The query `in(object,container)`. -/
def inQuery (object : String) (container : Query) : Query :=
  .predicate "in" [.const object, container]

theorem reifyPredicate_in {varMap : String → Option String} {leaf : Query} (object : String)
    {container : String} (h : reifyLeaf varMap leaf = some container) :
    reifyPredicate "in" [.const object, leaf] varMap = some (inProposition object container) := by
  have hargs : [Query.const object, leaf].mapM (reifyLeaf varMap) = some [object, container] := by
    rw [List.mapM_cons, List.mapM_cons, h]
    rfl
  have hjoin : String.intercalate "," [object, container] = object ++ "," ++ container := rfl
  have hopen : "in" ++ "(" = "in(" := rfl
  rw [reifyPredicate, hargs, Option.map_some, hjoin, hopen, inProposition]
  simp only [String.append_assoc]

/-- The formula of `in(object,container)`. -/
theorem buildFormula_in (d : L.Domain) {varMap : String → Option String} {leaf : Query}
    (object : String) {container : String} (h : reifyLeaf varMap leaf = some container) :
    buildFormula L d varMap (inQuery object leaf) =
      some (match L.getPropositionId d (inProposition object container) with
        | some p => .prop p
        | none => .null) := by
  rw [inQuery, buildFormula, reifyPredicate_in object h, Option.bind_eq_bind, Option.bind_some]
  cases L.getPropositionId d (inProposition object container) <;> rfl

/-- When no object is an answer. -/
theorem queryFrom_eq_nil {q : Query} {v : String} {objs : List String}
    (h : ∀ obj, e.answers q v obj = some false) : e.queryFrom q v objs = some [] := by
  induction objs with
  | nil => rfl
  | cons obj objs ih =>
    rw [queryFrom, h, ih]
    rfl

theorem query_in_eq_nil (h : ∀ name p, L.getPropositionId e.domain name = some p →
    L.evaluateFormula e.domain e.latestState (.prop p) = false) (object v : String) :
    e.query (inQuery object (.var v)) = some [] := by
  show e.queryFrom _ v e.allObjects = some []
  refine queryFrom_eq_nil fun obj ↦ ?_
  have hleaf : reifyLeaf (fun x ↦ if x = v then some obj else none) (.var v) = some obj :=
    if_pos rfl
  rw [answers, buildFormula_in e.domain object hleaf]
  cases hp : L.getPropositionId e.domain (inProposition object obj) with
  | none => rfl
  | some p =>
    have hfalse := h _ p hp
    show some (true && L.evaluateFormula e.domain e.latestState (.prop p)) = some false
    rw [hfalse]
    rfl

theorem evaluate_in {object container : String} {p : L.PropositionId}
    (hp : L.getPropositionId e.domain (inProposition object container) = some p) :
    e.evaluate (inQuery object (.const container)) =
      some (L.evaluateFormula e.domain e.latestState (.prop p)) := by
  rw [evaluate, buildFormula_in e.domain object rfl, hp]
  rfl

end EpistemicReasoning

theorem mem_propositions {objects : List String} {name : String} :
    name ∈ propositions objects ↔ ∃ fst snd, fst ∈ objects ∧ snd ∈ objects ∧ isFst fst ∧ isSnd snd ∧
      fst ≠ snd ∧ name = inProposition fst snd := by
  simp only [propositions, List.mem_flatMap, List.mem_filter, List.mem_map, decide_eq_true_eq]
  constructor
  · rintro ⟨fst, ⟨hfst, hf⟩, snd, ⟨hsnd, hne, hs⟩, rfl⟩
    exact ⟨fst, snd, hfst, hsnd, hf, hs, hne, rfl⟩
  · rintro ⟨fst, snd, hfst, hsnd, hf, hs, hne, rfl⟩
    exact ⟨fst, ⟨hfst, hf⟩, snd, ⟨hsnd, hne, hs⟩, rfl⟩

theorem propositions_subset {objects objects' : List String} (h : objects ⊆ objects') :
    propositions objects ⊆ propositions objects' := by
  intro name hname
  obtain ⟨fst, snd, hfst, hsnd, hrest⟩ := mem_propositions.1 hname
  exact mem_propositions.2 ⟨fst, snd, h hfst, h hsnd, hrest⟩

namespace EpistemicReasoning

variable {e : EpistemicReasoning L}

/-- **A registration keeps the registrations and forgets the facts.** After any session, registering
a name succeeds. The names there are, the declared propositions and the presence of every agent are
kept. The state is otherwise the one the session would lead to without its calls of
`put_in_container`, `take_out_of_container` and `direct_conscious_attention`: every query has the
answer it would have there, and no `in(object,container)` holds. -/
theorem addObject_starts_anew (hL : L.Lawful) {calls : List Call} (h : run L order calls = some e)
    (type : EpistemicObjectType) (name : String) :
    ∃ e', e.addObject order type name = some e' ∧
      (∃ e₀, run L order (calls.filter Call.registers) = some e₀ ∧
        e₀.addObject order type name = some e') ∧
      e'.allObjects = e.allObjects ++ [name] ∧
      propositions e.allObjects ⊆ propositions e'.allObjects ∧
      (∀ a info, e.agentInfos.lookup a = some info →
        ∃ i, e'.agentInfos.lookup a = some ⟨i, info.state⟩) ∧
      (∀ object container, inProposition object container ∈ propositions e'.allObjects →
        e'.evaluate (inQuery object (.const container)) = some false) ∧
      ∀ object v, e'.query (inQuery object (.var v)) = some [] := by
  have henrolled := Registrations.enrolled_addName (enrolled_run h) type name
  obtain ⟨e', he'⟩ := Option.isSome_iff_exists.1
    (Registrations.isSome_setupDomain hL order henrolled)
  obtain ⟨e₀, hrun₀, hreg⟩ := exists_run_filter h
  have hkept := Registrations.kept_setupDomain he'
  -- the initial propositions are all about attention, so no declared proposition holds
  have hfalse := fun n p ↦ @Registrations.evaluate_setupDomain L order _ hL e' he' n p
  have hobjects : e'.allObjects = e.allObjects ++ [name] := by
    rw [hkept.allObjects]
    cases type <;> rfl
  refine ⟨e', he', ⟨e₀, hrun₀, ?_⟩, hobjects, ?_, fun a info ha ↦ ?_,
    fun object container hmem ↦ ?_, fun object v ↦ ?_⟩
  · rw [addObject, ← hreg]
    exact he'
  · rw [hobjects]
    exact propositions_subset (List.subset_append_left _ _)
  · exact hkept.state (Registrations.lookup_addName type name ha)
  · rw [hkept.allObjects] at hmem
    obtain ⟨p, hp⟩ := Option.isSome_iff_exists.1
      ((Registrations.isSome_getPropositionId_setupDomain hL he').2 hmem)
    rw [evaluate_in hp, hfalse _ p hp]
  · exact query_in_eq_nil hfalse object v

/-- A cube and a box are registered, and the cube is put into the box. -/
def cubeInBox : List Call :=
  [.addObject .storable "marker-1", .addObject .container "marker-1001",
    .putInContainer "R2DTU" "marker-1" "marker-1001"]

/-- Where is the cube? -/
def whereIsCube : Query := inQuery "marker-1" (.var "x")

theorem addObject_starts_anew_cubeInBox :
    ∃ e e', run plainDomain .insertion cubeInBox = some e ∧
      e.addObject .insertion .storable "marker-2" = some e' ∧
      (∃ e₀, run plainDomain .insertion
          [.addObject .storable "marker-1", .addObject .container "marker-1001"] = some e₀ ∧
        e₀.addObject .insertion .storable "marker-2" = some e') ∧
      e'.query whereIsCube = some [] := by
  obtain ⟨e, he⟩ := Option.isSome_iff_exists.1
    (show (run plainDomain .insertion cubeInBox).isSome = true by decide)
  obtain ⟨e', he', h₀, -, -, -, -, hquery⟩ :=
    addObject_starts_anew lawful_plainDomain he .storable "marker-2"
  exact ⟨e, e', he, he', h₀, hquery "marker-1" "x"⟩

/-- **Where the cube is** was known, and is not any more once another cube has been registered. -/
theorem query_lost_on_addObject :
    (run plainDomain .insertion cubeInBox).bind (fun e ↦ e.query whereIsCube) =
        some ["marker-1001"] ∧
      ((run plainDomain .insertion cubeInBox).bind fun e ↦
        (e.addObject .insertion .storable "marker-2").bind fun e' ↦ e'.query whereIsCube) =
        some [] ∧
      (run plainDomain .insertion cubeInBox).map (fun e ↦ e.allObjects) =
        some ["marker-1", "marker-1001"] := by
  decide

end EpistemicReasoning

end Reasoning
