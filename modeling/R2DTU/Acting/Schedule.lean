import R2DTU.Acting.Trajectory
import Mathlib.Data.List.Perm.Subperm

/-!
# What a schedule issues

The first loop of `trajectory_cmd` groups the commands of all timepoints by their actuator
(`Collected`), so the groups are known: no actuator has two, and each has its commands in the order
of the timepoints. This puts every cursor in place for step 0, and `Cursor.issue` keeps it there.

`Decodes.run` is the result, for a receiver that finds the arrays of some timepoints.
-/

namespace Acting

open Grouping

/-- A function on positions agrees with a list, as far as the list goes. -/
def Agrees {β : Type*} (f : ℕ → β) (l : List β) : Prop := ∀ n x, l[n]? = some x → f n = x

section Agrees

variable {β : Type*} {f : ℕ → β} {l₁ l₂ l₃ : List β}

/-- The part of the list that lies behind `l₁`. -/
theorem Agrees.map_range (h : Agrees f (l₁ ++ l₂ ++ l₃)) :
    ((List.range l₂.length).map fun j ↦ f (l₁.length + j)) = l₂ := by
  refine List.ext_getElem (by simp) fun j _ hj ↦ ?_
  rw [List.getElem_map, List.getElem_range]
  refine h _ _ ?_
  rw [List.append_assoc, List.getElem?_append_right (Nat.le_add_right _ _),
    Nat.add_sub_cancel_left, List.getElem?_append_left hj, List.getElem?_eq_getElem hj]

end Agrees

namespace Timepoint

/-- A timepoint with known actuators, none of them twice. -/
structure Proper (t : Timepoint) : Prop where
  /-- There is a name for every actuator. -/
  lt : ∀ act ∈ t.actuators, act < 20
  /-- No actuator is set twice. -/
  nodup : t.actuators.Nodup

variable {t : Timepoint}

@[simp] theorem length_pairs (t : Timepoint) : t.pairs.length = t.actuators.length := by
  rw [pairs, List.length_zip, t.length_eq, Nat.min_self]

theorem map_fst_pairs (t : Timepoint) : t.pairs.map Prod.fst = t.actuators :=
  List.map_fst_zip t.length_eq.le

theorem Proper.length_le (h : t.Proper) : t.actuators.length ≤ 20 := by
  have hinj : Function.Injective UInt8.toNat := fun _ _ heq ↦ UInt8.toNat_inj.1 heq
  have hsub : t.actuators.map UInt8.toNat ⊆ List.range 20 := by
    intro n hn
    obtain ⟨act, hact, rfl⟩ := List.mem_map.1 hn
    exact List.mem_range.2 (UInt8.lt_iff_toNat_lt.1 (h.lt act hact))
  have hle := (List.subperm_of_subset (h.nodup.map hinj) hsub).length_le
  rwa [List.length_map, List.length_range] at hle

theorem Proper.nodup_pairs (h : t.Proper) : t.pairs.Nodup :=
  List.Nodup.of_map Prod.fst (t.map_fst_pairs ▸ h.nodup)

end Timepoint

/-! ### The commands of some timepoints -/

theorem length_flatMap_values (ts : List Timepoint) :
    (ts.flatMap Timepoint.values).length = (ts.flatMap Timepoint.actuators).length := by
  rw [List.length_flatMap, List.length_flatMap]
  simp only [Timepoint.length_eq]

/-- The commands in the order in which `pack` goes through them, each with its actuator. -/
def entries (ts : List Timepoint) : List (UInt8 × ActCmd) :=
  ts.zipIdx.flatMap fun t ↦ t.1.pairs.map fun p ↦ (p.1, ⟨t.2, p.2⟩)

theorem entries_concat (ts : List Timepoint) (t : Timepoint) :
    entries (ts ++ [t]) = entries ts ++ t.pairs.map fun p ↦ (p.1, ⟨ts.length, p.2⟩) := by
  rw [entries, List.zipIdx_append, List.flatMap_append, Nat.zero_add, List.zipIdx_singleton,
    List.flatMap_singleton]
  rfl

theorem mem_entries {ts : List Timepoint} {act : UInt8} {i : ℕ} {value : BitVec 32} :
    (act, ⟨i, value⟩) ∈ entries ts ↔ ∃ t, ts[i]? = some t ∧ (act, value) ∈ t.pairs := by
  rw [entries, List.mem_flatMap]
  constructor
  · rintro ⟨⟨t, k⟩, ht, he⟩
    obtain ⟨⟨act', value'⟩, hp, heq⟩ := List.mem_map.1 he
    obtain ⟨rfl, hcmd⟩ := Prod.mk.inj heq
    obtain ⟨rfl, rfl⟩ := ActCmd.mk.inj hcmd
    exact ⟨t, List.mem_zipIdx_iff_getElem?.1 ht, hp⟩
  · rintro ⟨t, ht, hp⟩
    exact ⟨(t, i), List.mem_zipIdx_iff_getElem?.2 ht, List.mem_map.2 ⟨_, hp, rfl⟩⟩

theorem timepoint_lt_of_mem_entries {ts : List Timepoint} {e : UInt8 × ActCmd}
    (h : e ∈ entries ts) : e.2.timepoint < ts.length := by
  obtain ⟨t, ht, -⟩ := mem_entries.1 h
  exact (List.getElem?_eq_some_iff.1 ht).1

/-- The commands of one actuator are in the order of their timepoints. -/
theorem pairwise_entries {ts : List Timepoint} (hts : ∀ t ∈ ts, t.Proper) :
    (entries ts).Pairwise fun e e' ↦ e.1 = e'.1 → e.2.timepoint < e'.2.timepoint := by
  induction ts using List.reverseRecOn with
  | nil => exact List.Pairwise.nil
  | append_singleton ts t ih =>
    rw [entries_concat, List.pairwise_append]
    refine ⟨ih fun t ht ↦ hts t (List.mem_append_left _ ht), ?_, ?_⟩
    · -- the actuators of one timepoint are different
      have hnodup := (hts t (List.mem_append_right _ (List.mem_singleton_self t))).nodup
      rw [← t.map_fst_pairs, List.Nodup, List.pairwise_map] at hnodup
      rw [List.pairwise_map]
      exact hnodup.imp fun hne heq ↦ absurd heq hne
    · intro e he e' he' _
      obtain ⟨p, -, rfl⟩ := List.mem_map.1 he'
      exact timepoint_lt_of_mem_entries he

theorem pairwise_valuesAt {ts : List Timepoint} (hts : ∀ t ∈ ts, t.Proper) (act : UInt8) :
    (valuesAt act (entries ts)).Pairwise fun c d ↦ c.timepoint < d.timepoint := by
  rw [valuesAt, List.pairwise_filterMap]
  refine (pairwise_entries hts).imp fun {e e'} hlt c hc d hd ↦ ?_
  split_ifs at hc with he
  split_ifs at hd with he'
  obtain rfl := Option.some.inj hc
  obtain rfl := Option.some.inj hd
  exact hlt (he.trans he'.symm)

/-- An actuator has at most one command for each timepoint. -/
theorem length_valuesAt_le {ts : List Timepoint} (hts : ∀ t ∈ ts, t.Proper) (act : UInt8) :
    (valuesAt act (entries ts)).length ≤ ts.length := by
  have hnodup : ((valuesAt act (entries ts)).map ActCmd.timepoint).Nodup := by
    rw [List.Nodup, List.pairwise_map]
    exact (pairwise_valuesAt hts act).imp fun hlt ↦ hlt.ne
  have hsub : (valuesAt act (entries ts)).map ActCmd.timepoint ⊆ List.range ts.length := by
    intro n hn
    obtain ⟨c, hc, rfl⟩ := List.mem_map.1 hn
    exact List.mem_range.2 (timepoint_lt_of_mem_entries (mem_valuesAt.1 hc))
  have hle := (List.subperm_of_subset hnodup hsub).length_le
  rwa [List.length_map, List.length_range] at hle

/-! ### The first loop -/

/-- An actuator with its commands, as a group. -/
def ActCmds.toGroup (a : ActCmds) : UInt8 × List ActCmd := (a.act, a.cmds)

/-- The groups of some commands, with no cursor moved yet. -/
structure Collected (es : List (UInt8 × ActCmd)) (actuatorCmds : List ActCmds) : Prop where
  groups : actuatorCmds.map ActCmds.toGroup = group es
  idx : ∀ a ∈ actuatorCmds, a.idx = 0

namespace TrajectoryCmd

theorem map_toGroup_addCmd (act : UInt8) (cmd : ActCmd) (actuatorCmds : List ActCmds) :
    (addCmd act cmd actuatorCmds).map ActCmds.toGroup =
      push act cmd (actuatorCmds.map ActCmds.toGroup) := by
  induction actuatorCmds with
  | nil => rfl
  | cons a actuatorCmds ih =>
    rw [addCmd, List.map_cons, ActCmds.toGroup, push]
    split_ifs
    · rfl
    · rw [List.map_cons, ih]
      rfl

theorem idx_of_mem_addCmd {act : UInt8} {cmd : ActCmd} {actuatorCmds : List ActCmds}
    (h : ∀ a ∈ actuatorCmds, a.idx = 0) : ∀ a ∈ addCmd act cmd actuatorCmds, a.idx = 0 := by
  induction actuatorCmds with
  | nil =>
    intro a ha
    rw [addCmd, List.mem_singleton] at ha
    rw [ha]
    rfl
  | cons b actuatorCmds ih =>
    obtain ⟨hb, hrest⟩ := List.forall_mem_cons.1 h
    rw [addCmd]
    split_ifs
    · exact List.forall_mem_cons.2 ⟨hb, hrest⟩
    · exact List.forall_mem_cons.2 ⟨hb, ih hrest⟩

/-- **One command.** -/
theorem collected_addCmd {es : List (UInt8 × ActCmd)} {actuatorCmds : List ActCmds}
    (h : Collected es actuatorCmds) (e : UInt8 × ActCmd) :
    Collected (es ++ [e]) (addCmd e.1 e.2 actuatorCmds) where
  groups := by rw [map_toGroup_addCmd, h.groups, group_concat]
  idx := idx_of_mem_addCmd h.idx

theorem collected_foldl {es es' : List (UInt8 × ActCmd)} {actuatorCmds : List ActCmds}
    (h : Collected es actuatorCmds) :
    Collected (es ++ es') (es'.foldl (fun cmds e ↦ addCmd e.1 e.2 cmds) actuatorCmds) := by
  induction es' generalizing es actuatorCmds with
  | nil => rwa [List.append_nil]
  | cons e es' ih =>
    rw [← List.singleton_append, ← List.append_assoc]
    exact ih (collected_addCmd h e)

/-- The receiver finds the arrays of some timepoints. -/
structure Decodes (msg : TrajectoryCmd) (ts : List Timepoint) : Prop where
  numTimepoints : msg.numTimepoints = ts.length
  timestamps : Agrees msg.timestamps (ts.map Timepoint.timestamp)
  numValues : Agrees (fun i ↦ (msg.numValues i).toNat) (ts.map fun t ↦ t.pairs.length)
  actuators : Agrees msg.actuators (ts.flatMap Timepoint.actuators)
  values : Agrees msg.values (ts.flatMap Timepoint.values)

variable {msg : TrajectoryCmd} {ts : List Timepoint}

theorem Decodes.numValues_eq (h : msg.Decodes ts) {i : ℕ} {t : Timepoint} (ht : ts[i]? = some t) :
    (msg.numValues i).toNat = t.pairs.length :=
  h.numValues i _ (by rw [List.getElem?_map, ht]; rfl)

theorem Decodes.timestamps_eq (h : msg.Decodes ts) {i : ℕ} {t : Timepoint}
    (ht : ts[i]? = some t) : msg.timestamps i = t.timestamp :=
  h.timestamps i _ (by rw [List.getElem?_map, ht]; rfl)

/-- The pairs of a timepoint are read from where those before it end. -/
theorem Decodes.map_range_pairs {pre post : List Timepoint} {t : Timepoint}
    (h : msg.Decodes (pre ++ [t] ++ post)) :
    (List.range t.pairs.length).map (fun j ↦
        (msg.actuators ((pre.flatMap Timepoint.actuators).length + j),
          msg.values ((pre.flatMap Timepoint.actuators).length + j))) = t.pairs := by
  have hact := h.actuators
  have hval := h.values
  rw [List.flatMap_append, List.flatMap_append, List.flatMap_singleton] at hact hval
  have hact' := hact.map_range
  have hval' := hval.map_range
  rw [length_flatMap_values, ← t.length_eq] at hval'
  rw [← List.zip_map', Timepoint.length_pairs, hact', hval', Timepoint.pairs]

/-- **The first loop**, up to a timepoint: `p` is where its values begin. -/
theorem Decodes.foldl_collectStep (h : msg.Decodes ts)
    (hsize : (ts.flatMap Timepoint.actuators).length < 2 ^ 32) {pre post : List Timepoint}
    (hts : ts = pre ++ post) :
    ((List.range pre.length).foldl msg.collectStep (0, [])).1 =
        (pre.flatMap Timepoint.actuators).length ∧
      Collected (entries pre)
        ((List.range pre.length).foldl msg.collectStep (0, [])).2 := by
  induction pre using List.reverseRecOn generalizing post with
  | nil => exact ⟨rfl, rfl, fun a ha ↦ absurd ha List.not_mem_nil⟩
  | append_singleton pre t ih =>
    obtain ⟨hp, hcollected⟩ := ih (by rw [hts, List.append_assoc])
    have ht : ts[pre.length]? = some t := by
      rw [hts, List.append_assoc, List.getElem?_append_right le_rfl, Nat.sub_self]
      rfl
    have hlen : ((pre ++ [t]).flatMap Timepoint.actuators).length =
        (pre.flatMap Timepoint.actuators).length + t.actuators.length := by
      rw [List.flatMap_append, List.flatMap_singleton, List.length_append]
    have hle : ((pre ++ [t]).flatMap Timepoint.actuators).length ≤
        (ts.flatMap Timepoint.actuators).length := by
      rw [hts, @List.flatMap_append _ _ (pre ++ [t]) post, List.length_append]
      exact Nat.le_add_right _ _
    rw [List.length_append, List.length_singleton, List.range_succ, List.foldl_append,
      List.foldl_cons, List.foldl_nil, collectStep, h.numValues_eq ht, hp]
    constructor
    · rw [Timepoint.length_pairs, hlen]
      exact Nat.mod_eq_of_lt (by omega)
    · have hpairs := @Decodes.map_range_pairs msg pre post t (hts ▸ h)
      have hfold := @collected_foldl (entries pre)
        (t.pairs.map fun p ↦ (p.1, ⟨pre.length, p.2⟩)) _ hcollected
      rw [← entries_concat, List.foldl_map] at hfold
      conv at hfold =>
        arg 2
        rw [← hpairs, List.foldl_map]
      exact hfold

/-- **The first loop** groups all commands. -/
theorem Decodes.collected (h : msg.Decodes ts)
    (hsize : (ts.flatMap Timepoint.actuators).length < 2 ^ 32) :
    Collected (entries ts) msg.collect := by
  rw [collect, h.numTimepoints]
  exact (h.foldl_collectStep hsize (List.append_nil ts).symm).2

end TrajectoryCmd

/-! ### The second loop -/

namespace Collected

variable {es : List (UInt8 × ActCmd)} {actuatorCmds : List ActCmds}

theorem nodup_act (h : Collected es actuatorCmds) : (actuatorCmds.map ActCmds.act).Nodup := by
  have hnodup := nodup_keys_group es
  rwa [← h.groups, List.map_map] at hnodup

theorem cmds_eq (h : Collected es actuatorCmds) {a : ActCmds} (ha : a ∈ actuatorCmds) :
    a.cmds = valuesAt a.act es := by
  have hmem : a.toGroup ∈ group es := h.groups ▸ List.mem_map_of_mem ha
  exact (mem_group_iff.1 hmem).1

theorem exists_mem_iff (h : Collected es actuatorCmds) {act : UInt8} {cmd : ActCmd} :
    (∃ a ∈ actuatorCmds, act = a.act ∧ cmd ∈ a.cmds) ↔ (act, cmd) ∈ es := by
  rw [← mem_valuesAt]
  constructor
  · rintro ⟨a, ha, rfl, hcmd⟩
    exact h.cmds_eq ha ▸ hcmd
  · intro hcmd
    have hmem : (act, valuesAt act es) ∈ group es :=
      mem_group_iff.2 ⟨rfl, List.ne_nil_of_mem hcmd⟩
    rw [← h.groups] at hmem
    obtain ⟨a, ha, heq⟩ := List.mem_map.1 hmem
    obtain ⟨rfl, hcmds⟩ := Prod.mk.inj heq
    exact ⟨a, ha, rfl, hcmds.symm ▸ hcmd⟩

/-- **Before step 0** every cursor is in place. -/
theorem cursor {ts : List Timepoint} (h : Collected (entries ts) actuatorCmds)
    (hts : ∀ t ∈ ts, t.Proper) (hlen : ts.length ≤ 255) :
    ∀ a ∈ actuatorCmds, a.Cursor 0 := by
  intro a ha
  refine ⟨?_, ?_, fun c hc ↦ ?_, fun c _ ↦ Nat.zero_le _⟩
  · rw [ActCmds.Ordered, h.cmds_eq ha]
    exact pairwise_valuesAt hts a.act
  · rw [h.cmds_eq ha]
    exact (length_valuesAt_le hts a.act).trans hlen
  · rw [h.idx a ha] at hc
    exact absurd hc List.not_mem_nil

end Collected

/-- What a step issues: the commands of its timepoint, each once. -/
structure StepOf (msg : TrajectoryCmd) (actuatorCmds : List ActCmds) (i : ℕ) (s : SetAngles) :
    Prop where
  timestamp : s.timestamp = msg.timestamps i
  slots : s.slots = (msg.numValues i).toNat
  nodup : s.issued.Nodup
  mem_iff (act : UInt8) (value : BitVec 32) : (act, value) ∈ s.issued ↔
    ∃ a ∈ actuatorCmds, act = a.act ∧ ⟨i, value⟩ ∈ a.cmds

section Schedule

variable {msg : TrajectoryCmd} {actuatorCmds : List ActCmds} {i : ℕ}

/-- **One step.** -/
theorem stepOf_issue (hcursor : ∀ a ∈ actuatorCmds, a.Cursor i)
    (hnodup : (actuatorCmds.map ActCmds.act).Nodup) :
    StepOf msg actuatorCmds i
      ⟨msg.timestamps i, (msg.numValues i).toNat,
        actuatorCmds.filterMap fun a ↦ (a.issue i).1⟩ where
  timestamp := rfl
  slots := rfl
  nodup := by
    rw [List.Nodup, List.pairwise_map] at hnodup
    rw [List.Nodup, List.pairwise_filterMap]
    refine hnodup.imp_of_mem fun {a b} ha hb hne p hp q hq heq ↦ hne ?_
    have hpa := (((hcursor a ha).issue.2 p).1 hp).1
    have hqb := (((hcursor b hb).issue.2 q).1 hq).1
    rw [← hpa, ← hqb, heq]
  mem_iff := fun act value ↦ by
    rw [List.mem_filterMap]
    exact exists_congr fun a ↦ and_congr_right fun ha ↦ (hcursor a ha).issue.2 (act, value)

/-- **All steps**: a step issues what belongs to it, and leaves the cursors in place for the next
one. -/
theorem schedule_spec {n : ℕ} (hcursor : ∀ a ∈ actuatorCmds, a.Cursor i)
    (hnodup : (actuatorCmds.map ActCmds.act).Nodup) :
    List.Forall₂ (StepOf msg actuatorCmds) (List.range' i n)
      (msg.schedule actuatorCmds (List.range' i n)) := by
  induction n generalizing i actuatorCmds with
  | zero => exact List.Forall₂.nil
  | succ n ih =>
    rw [List.range'_succ, TrajectoryCmd.schedule]
    refine List.Forall₂.cons (stepOf_issue hcursor hnodup) ?_
    have hacts : ((actuatorCmds.map fun a ↦ (a.issue i).2).map ActCmds.act) =
        actuatorCmds.map ActCmds.act := by
      rw [List.map_map]
      exact List.map_congr_left fun a _ ↦ ActCmds.act_issue i a
    refine (ih (fun a ha ↦ ?_) (hacts ▸ hnodup)).imp fun k s hs ↦
      ⟨hs.timestamp, hs.slots, hs.nodup, fun act value ↦ (hs.mem_iff act value).trans ?_⟩
    · obtain ⟨b, hb, rfl⟩ := List.mem_map.1 ha
      exact (hcursor b hb).issue.1
    · simp only [List.mem_map, exists_exists_and_eq_and, ActCmds.act_issue, ActCmds.cmds_issue]

end Schedule

/-- A step carries out a timepoint: the pairs of the timepoint are issued, each once, the arrays
have as many slots, and every slot has the name of another actuator. -/
structure Issues (t : Timepoint) (s : SetAngles) : Prop where
  /-- The time is that of the timepoint. -/
  timestamp : s.timestamp = t.timestamp
  /-- There is room for its pairs. -/
  slots : s.slots = t.pairs.length
  /-- Its pairs are issued, in some order. -/
  perm : s.issued.Perm t.pairs
  /-- None is issued twice. -/
  nodup : s.issued.Nodup
  /-- Every slot gets a name, and no two the same. -/
  names : s.names.Nodup ∧ none ∉ s.names

/-- Known actuators have different names. -/
theorem names_of_perm {t : Timepoint} {s : SetAngles} (ht : t.Proper)
    (hperm : s.issued.Perm t.pairs) : s.names.Nodup ∧ none ∉ s.names := by
  have hnodup : (s.issued.map Prod.fst).Nodup := by
    rw [(hperm.map Prod.fst).nodup_iff, t.map_fst_pairs]
    exact ht.nodup
  have hlt : ∀ p ∈ s.issued, p.1.toNat < actuatorKeys.length := by
    intro p hp
    have hact : p.1 ∈ t.actuators := t.map_fst_pairs ▸ List.mem_map_of_mem (hperm.subset hp)
    exact UInt8.lt_iff_toNat_lt.1 (ht.lt _ hact)
  have hkeys : actuatorKeys.Nodup := by decide
  rw [SetAngles.names]
  constructor
  · rw [List.Nodup, List.pairwise_map] at hnodup ⊢
    refine hnodup.imp_of_mem fun {p q} hp _ hne heq ↦ hne ?_
    exact UInt8.toNat_inj.1 ((List.getElem?_inj (hlt p hp) hkeys).1 heq)
  · rintro hnone
    obtain ⟨p, hp, heq⟩ := List.mem_map.1 hnone
    exact absurd (hlt p hp) (Nat.not_lt.2 (List.getElem?_eq_none_iff.1 heq))

/-- **The steps are the timepoints**, for a receiver that finds their arrays. -/
theorem TrajectoryCmd.Decodes.run {msg : TrajectoryCmd} {ts : List Timepoint} (h : msg.Decodes ts)
    (hts : ∀ t ∈ ts, t.Proper) (hlen : ts.length ≤ 255)
    (hsize : (ts.flatMap Timepoint.actuators).length < 2 ^ 32) :
    List.Forall₂ Issues ts msg.run := by
  have hcollected := h.collected hsize
  have hsteps := @schedule_spec msg msg.collect 0 ts.length (hcollected.cursor hts hlen)
    hcollected.nodup_act
  rw [← List.range_eq_range'] at hsteps
  rw [TrajectoryCmd.run, h.numTimepoints]
  refine List.forall₂_iff_get.2 ⟨?_, fun i hi hi' ↦ ?_⟩
  · rw [← hsteps.length_eq, List.length_range]
  · have hstep := (List.forall₂_iff_get.1 hsteps).2 i (by rwa [List.length_range]) hi'
    rw [List.get_eq_getElem, List.getElem_range] at hstep
    have ht : ts[i]? = some (ts.get ⟨i, hi⟩) := List.getElem?_eq_getElem hi
    have hproper := hts _ (List.get_mem ts ⟨i, hi⟩)
    have hperm : (msg.schedule msg.collect (List.range ts.length)).get ⟨i, hi'⟩ |>.issued.Perm
        (ts.get ⟨i, hi⟩).pairs := by
      refine (List.perm_ext_iff_of_nodup hstep.nodup hproper.nodup_pairs).2 ?_
      rintro ⟨act, value⟩
      rw [hstep.mem_iff, hcollected.exists_mem_iff, mem_entries]
      constructor
      · rintro ⟨t, ht', hp⟩
        rwa [Option.some.inj (ht.symm.trans ht')]
      · exact fun hp ↦ ⟨_, ht, hp⟩
    exact ⟨hstep.timestamp.trans (h.timestamps_eq ht), hstep.slots.trans (h.numValues_eq ht),
      hperm, hstep.nodup, names_of_perm hproper hperm⟩

end Acting
