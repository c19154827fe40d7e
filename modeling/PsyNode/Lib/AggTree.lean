/-
PsyNode.Lib.AggTree
**AGGREGATION TREES**: inputs at the leaves, a job at every inner node.

A planner that only ever pushes an input on a stack of trees and merges the two
topmost trees creates its jobs in the post-order of the stack, so everything
about the schedule can be read off the trees: who depends on whom (`Wired`), what is
reached from the root (`reach`), and the jobs of each level (`levelTable`).
-/
import Mathlib.Tactic

namespace PsyNode.Lib.Agg

open List Nat

/-- An aggregation tree. -/
inductive AggTree (I J : Type)
  | input (i : I)
  | wrap (j : J) (child : AggTree I J)
  | pair (j : J) (left right : AggTree I J)

/-- How a planner names inputs and jobs, and on which level a job stands. -/
structure Labels (I J Id : Type) where
  inputId : I → Id
  jobId : J → Id
  deps : J → List Id
  level : J → Nat

variable {n : Nat}

namespace AggTree

variable {I J Id : Type}

/-! ## §1. Nodes of a tree. -/

/-- The inputs, left to right. -/
def inputs : AggTree I J → List I
  | input i => [i]
  | wrap _ c => c.inputs
  | pair _ l r => l.inputs ++ r.inputs

/-- The jobs, children before parents. -/
def jobs : AggTree I J → List J
  | input _ => []
  | wrap j c => c.jobs ++ [j]
  | pair j l r => l.jobs ++ r.jobs ++ [j]

/-- Inputs have height 0. -/
def height : AggTree I J → Nat
  | input _ => 0
  | wrap _ c => c.height + 1
  | pair _ l r => max l.height r.height + 1

variable (t : AggTree I J)

theorem inputs_ne_nil : t.inputs ≠ [] := by
  induction t with
  | input i => simp [inputs]
  | wrap j c ih => exact ih
  | pair j l r ihl _ => simp [inputs, ihl]

theorem height_le_jobs_length : t.height ≤ t.jobs.length := by
  induction t with
  | input i => exact Nat.zero_le _
  | wrap j c ih => simp [height, jobs, ih]
  | pair j l r ihl ihr =>
    simp only [height, jobs, length_append, length_singleton]
    omega

theorem jobs_length_lt : t.jobs.length < 2 ^ t.height := by
  induction t with
  | input i => exact Nat.one_pos
  | wrap j c ih =>
    simp only [height, jobs, length_append, length_singleton, pow_succ]
    omega
  | pair j l r ihl ihr =>
    have hl : 2 ^ l.height ≤ 2 ^ max l.height r.height :=
      Nat.pow_le_pow_right (by omega) (le_max_left _ _)
    have hr : 2 ^ r.height ≤ 2 ^ max l.height r.height :=
      Nat.pow_le_pow_right (by omega) (le_max_right _ _)
    simp only [height, jobs, length_append, length_singleton, pow_succ]
    omega

/-- The id of the topmost node. -/
def rootId (L : Labels I J Id) : AggTree I J → Id
  | input i => L.inputId i
  | wrap j _ => L.jobId j
  | pair j _ _ => L.jobId j

/-- `w` holds of every job with one child, `p` of every job with two. -/
def Each (w : J → AggTree I J → Prop) (p : J → AggTree I J → AggTree I J → Prop) :
    AggTree I J → Prop
  | input _ => True
  | wrap j c => w j c ∧ c.Each w p
  | pair j l r => p j l r ∧ l.Each w p ∧ r.Each w p

variable {t : AggTree I J}

theorem Each.imp {w w' : J → AggTree I J → Prop} {p p' : J → AggTree I J → AggTree I J → Prop}
    (hw : ∀ j c, w j c → w' j c) (hp : ∀ j l r, p j l r → p' j l r) (h : t.Each w p) :
    t.Each w' p' := by
  induction t with
  | input i => trivial
  | wrap j c ih => exact ⟨hw j c h.1, ih h.2⟩
  | pair j l r ihl ihr => exact ⟨hp j l r h.1, ihl h.2.1, ihr h.2.2⟩

theorem Each.forall_jobs {q : J → Prop} (h : t.Each (fun j _ => q j) (fun j _ _ => q j)) :
    ∀ j ∈ t.jobs, q j := by
  induction t with
  | input i => intro j hj; exact absurd hj (by simp [jobs])
  | wrap k c ih =>
    rw [jobs, forall_mem_append, forall_mem_singleton]
    exact ⟨ih h.2, h.1⟩
  | pair k l r ihl ihr =>
    rw [jobs, forall_mem_append, forall_mem_append, forall_mem_singleton]
    exact ⟨⟨ihl h.2.1, ihr h.2.2⟩, h.1⟩

/-! ## §2. Dependencies. -/

/-- Every job names its children, in order. -/
def Wired (L : Labels I J Id) : AggTree I J → Prop :=
  Each (fun j c => L.deps j = [c.rootId L]) (fun j l r => L.deps j = [l.rootId L, r.rootId L])

variable {L : Labels I J Id}

/-- **EVERY NODE IS NAMED ONCE.**  The root and all dependencies together are, with
multiplicity, the ids of all nodes. -/
theorem rootId_cons_deps_perm (h : t.Wired L) :
    (t.rootId L :: t.jobs.flatMap L.deps).Perm (t.inputs.map L.inputId ++ t.jobs.map L.jobId) := by
  induction t with
  | input i => exact List.Perm.refl _
  | wrap j c ih =>
    obtain ⟨hdeps, hc⟩ := h
    simp only [rootId, jobs, inputs, flatMap_append, flatMap_cons, flatMap_nil,
      append_nil, map_append, map_cons, map_nil, hdeps]
    rw [← append_assoc]
    refine (perm_append_singleton _ _).symm.trans (List.Perm.append_right _ ?_)
    exact (perm_append_singleton _ _).trans (ih hc)
  | pair j l r ihl ihr =>
    obtain ⟨hdeps, hl, hr⟩ := h
    show (L.jobId j :: _).Perm _
    simp only [jobs, inputs, flatMap_append, flatMap_cons, flatMap_nil, append_nil, map_append,
      map_cons, map_nil, hdeps]
    -- the two children's ids, counted with their own nodes
    classical
    refine perm_iff_count.mpr (fun d => ?_)
    have hl := (ihl hl).count_eq d
    have hr := (ihr hr).count_eq d
    simp only [count_cons, count_append, count_nil] at hl hr ⊢
    omega

variable {js : List J}

/-- If an element occurs once in the concatenation, one list only has it. -/
theorem eq_of_count_flatMap_eq_one [DecidableEq Id] {f : J → List Id} {d : Id}
    (h : (js.flatMap f).count d = 1) {p q : J} (hp : p ∈ js) (hq : q ∈ js) (hdp : d ∈ f p)
    (hdq : d ∈ f q) : p = q := by
  by_contra hne
  obtain ⟨a, b, rfl⟩ := append_of_mem hp
  have hq' : q ∈ a ++ b := by
    rcases mem_append.mp hq with hqa | hqb
    · exact mem_append_left _ hqa
    · rcases mem_cons.mp hqb with rfl | hqb
      · exact absurd rfl hne
      · exact mem_append_right _ hqb
  have hrest : 0 < ((a ++ b).flatMap f).count d :=
    count_pos_iff.mpr (mem_flatMap.mpr ⟨q, hq', hdq⟩)
  have hown : 0 < (f p).count d := count_pos_iff.mpr hdp
  rw [flatMap_append, count_append] at hrest
  rw [flatMap_append, flatMap_cons, count_append, count_append] at h
  omega

/-- **ONE PARENT.**  When every node but the root is named once, job ids are distinct and
no input has a job's id, every job but the root is a dependency of exactly one job. -/
theorem exists_unique_parent [DecidableEq Id] {deps : J → List Id} {id : J → Id}
    {ins : List Id} {root : Id} (hperm : (root :: js.flatMap deps).Perm (ins ++ js.map id))
    (hnodup : (js.map id).Nodup) (hins : ∀ i ∈ ins, i ∉ js.map id) {k : J} (hk : k ∈ js)
    (hroot : id k ≠ root) : ∃ p ∈ js, id k ∈ deps p ∧ ∀ q ∈ js, id k ∈ deps q → q = p := by
  have hmem : id k ∈ js.map id := mem_map_of_mem hk
  have hcount := hperm.count_eq (id k)
  have hnotInput : ins.count (id k) = 0 := by
    rw [count_eq_zero]
    intro hin
    exact hins _ hin hmem
  rw [count_cons_of_ne (Ne.symm hroot), count_append, hnotInput, Nat.zero_add,
    count_eq_one_of_mem hnodup hmem] at hcount
  obtain ⟨p, hp, hdp⟩ := mem_flatMap.mp
    (count_pos_iff.mp (by rw [hcount]; exact Nat.one_pos))
  exact ⟨p, hp, hdp, fun q hq hdq => eq_of_count_flatMap_eq_one hcount hq hp hdq hdp⟩

/-- Every job stands on a higher level than all jobs below it. -/
def Leveled (L : Labels I J Id) : AggTree I J → Prop :=
  Each (fun j c => ∀ k ∈ c.jobs, L.level k < L.level j)
    (fun j l r => ∀ k ∈ l.jobs ++ r.jobs, L.level k < L.level j)

/-- A tree is no higher than it has levels. -/
theorem Leveled.height_le (h : t.Leveled L) (hn : ∀ j ∈ t.jobs, L.level j < n) : t.height ≤ n := by
  induction t generalizing n with
  | input i => exact Nat.zero_le n
  | wrap j c ih =>
    have hc := ih h.2 h.1
    have hj := hn j (by simp [jobs])
    rw [height]
    omega
  | pair j l r ihl ihr =>
    have hl := ihl h.2.1 (fun k hk => h.1 k (mem_append_left _ hk))
    have hr := ihr h.2.2 (fun k hk => h.1 k (mem_append_right _ hk))
    have hj := hn j (by simp [jobs])
    rw [height]
    omega

/-- An input, or a job on a lower level than `p`. -/
def Below (L : Labels I J Id) (t : AggTree I J) (p : J) (d : Id) : Prop :=
  (∃ i ∈ t.inputs, d = L.inputId i) ∨ ∃ k ∈ t.jobs, d = L.jobId k ∧ L.level k < L.level p

theorem Below.mono {t' : AggTree I J} {p : J} {d : Id} (h : Below L t p d)
    (hin : t.inputs ⊆ t'.inputs) (hjobs : t.jobs ⊆ t'.jobs) : Below L t' p d := by
  rcases h with ⟨i, hi, hid⟩ | ⟨k, hk, hrest⟩
  · exact Or.inl ⟨i, hin hi, hid⟩
  · exact Or.inr ⟨k, hjobs hk, hrest⟩

theorem below_rootId {p : J} (h : ∀ k ∈ t.jobs, L.level k < L.level p) :
    Below L t p (t.rootId L) := by
  cases t with
  | input i => exact Or.inl ⟨i, by simp [inputs], rfl⟩
  | wrap j | pair j => exact Or.inr ⟨j, by simp [jobs], rfl, h j (by simp [jobs])⟩

/-- **WHAT A DEPENDENCY NAMES** stands below the job. -/
theorem dep_cases (hw : t.Wired L) (hl : t.Leveled L) {p : J} (hp : p ∈ t.jobs) {d : Id}
    (hd : d ∈ L.deps p) : Below L t p d := by
  induction t with
  | input i => exact absurd hp (by simp [jobs])
  | wrap j c ih =>
    have hlift : ∀ {q}, Below L c q d → Below L (wrap j c) q d :=
      fun h => h.mono (List.Subset.refl _) (subset_append_left _ _)
    rcases mem_append.mp hp with hp | hp
    · exact hlift (ih hw.2 hl.2 hp)
    · obtain rfl := mem_singleton.mp hp
      rw [hw.1, mem_singleton] at hd
      exact hlift (hd ▸ below_rootId hl.1)
  | pair j l r ihl ihr =>
    have hleft : ∀ {q}, Below L l q d → Below L (pair j l r) q d := fun h =>
      h.mono (subset_append_left _ _) (subset_append_of_subset_left _ (subset_append_left _ _))
    have hright : ∀ {q}, Below L r q d → Below L (pair j l r) q d := fun h =>
      h.mono (subset_append_right _ _) (subset_append_of_subset_left _ (subset_append_right _ _))
    rcases mem_append.mp hp with hp | hp
    · rcases mem_append.mp hp with hp | hp
      · exact hleft (ihl hw.2.1 hl.2.1 hp)
      · exact hright (ihr hw.2.2 hl.2.2 hp)
    · obtain rfl := mem_singleton.mp hp
      rw [hw.1] at hd
      rcases mem_pair.mp hd with rfl | rfl
      · exact hleft (below_rootId (fun k hk => hl.1 k (mem_append_left _ hk)))
      · exact hright (below_rootId (fun k hk => hl.1 k (mem_append_right _ hk)))

end AggTree

/-! ## §3. Reading dependencies. -/

section
variable {I J Id : Type}

/-- Read the dependencies of an id down to the ids that have none recorded. -/
def reach (find : Id → Option (List Id)) : Nat → Id → List Id
  | 0, d => [d]
  | n + 1, d =>
    match find d with
    | none => [d]
    | some ds => ds.flatMap (reach find n)

/-- **THE INPUTS ARE REACHED**, left to right, from the root of a wired tree. -/
theorem AggTree.reach_rootId {L : Labels I J Id} {find : Id → Option (List Id)} {t : AggTree I J}
    {n : Nat} (hw : t.Wired L) (hin : ∀ i ∈ t.inputs, find (L.inputId i) = none)
    (hjobs : ∀ j ∈ t.jobs, find (L.jobId j) = some (L.deps j)) (hn : t.height ≤ n) :
    reach find n (t.rootId L) = t.inputs.map L.inputId := by
  induction t generalizing n with
  | input i =>
    cases n with
    | zero => rfl
    | succ n =>
      have hnone : find (L.inputId i) = none := hin i (by simp [inputs])
      simp [reach, rootId, hnone, inputs]
  | wrap j c ih =>
    obtain ⟨n, rfl⟩ : ∃ m, n = m + 1 := ⟨n - 1, by simp only [height] at hn; omega⟩
    simp only [height] at hn
    have hj : find (L.jobId j) = some [c.rootId L] := by
      rw [hjobs j (by simp [jobs]), hw.1]
    rw [rootId, reach, hj]
    simp only [flatMap_cons, flatMap_nil, append_nil]
    exact ih hw.2 hin (fun k hk => hjobs k (mem_append_left _ hk)) (by omega)
  | pair j l r ihl ihr =>
    obtain ⟨n, rfl⟩ : ∃ m, n = m + 1 := ⟨n - 1, by simp only [height] at hn; omega⟩
    simp only [height] at hn
    have hj : find (L.jobId j) = some [l.rootId L, r.rootId L] := by
      rw [hjobs j (by simp [jobs]), hw.1]
    rw [rootId, reach, hj]
    simp only [flatMap_cons, flatMap_nil, append_nil, inputs, map_append]
    rw [ihl hw.2.1 (fun i hi => hin i (mem_append_left _ hi))
        (fun k hk => hjobs k (mem_append_left _ (mem_append_left _ hk))) (by omega),
      ihr hw.2.2 (fun i hi => hin i (mem_append_right _ hi))
        (fun k hk => hjobs k (mem_append_left _ (mem_append_right _ hk))) (by omega)]

end

/-! ## §4. Levels. -/

variable {k : Nat}

section
variable {J α : Type} (level : J → Nat) (out : J → α)

/-- The first `n` levels: on each the jobs of that level, in the given order, as `out`
shows them. -/
def levelTable (n : Nat) (js : List J) : List (List α) :=
  (List.range n).map (fun k => (js.filter (fun j => level j = k)).map out)

@[simp] theorem levelTable_length (n : Nat) (js : List J) :
    (levelTable level out n js).length = n := by
  simp [levelTable]

variable (js : List J)

theorem levelTable_getElem? (hk : k < n) :
    (levelTable level out n js)[k]? = some ((js.filter (fun j => level j = k)).map out) := by
  simp [levelTable, hk]

/-- A new job goes to the end of its level. -/
theorem levelTable_concat (j : J) : levelTable level out n (js ++ [j]) =
      (levelTable level out n js).modify (level j) (· ++ [out j]) := by
  apply ext_getElem?
  intro k
  rw [getElem?_modify]
  by_cases hk : k < n
  · rw [levelTable_getElem? level out _ hk, levelTable_getElem? level out _ hk]
    by_cases hj : level j = k
    · simp [hj]
    · simp [hj]
  · rw [getElem?_eq_none (by simpa using hk), getElem?_eq_none (by simpa using hk)]
    rfl

variable {js : List J}

/-- Levels above all jobs are empty. -/
theorem levelTable_grow (h : ∀ j ∈ js, level j < n) (m : Nat) :
    levelTable level out (n + m) js = levelTable level out n js ++ replicate m [] := by
  unfold levelTable
  rw [range_add, map_append]
  congr 1
  apply eq_replicate_iff.mpr
  refine ⟨by simp, ?_⟩
  intro b hb
  simp only [map_map, mem_map, mem_range] at hb
  obtain ⟨i, _, rfl⟩ := hb
  simp only [Function.comp_apply, map_eq_nil_iff, filter_eq_nil_iff, decide_eq_true_eq]
  intro j hj
  have := h j hj
  omega

/-- How many levels the jobs need. -/
def levelCount : List J → Nat
  | [] => 0
  | j :: js => max (level j + 1) (levelCount js)

theorem levelCount_le : levelCount level js ≤ n ↔ ∀ j ∈ js, level j < n := by
  induction js with
  | nil => simp [levelCount]
  | cons j js ih => simp [levelCount, ih]

theorem levelCount_append (js ks : List J) :
    levelCount level (js ++ ks) = max (levelCount level js) (levelCount level ks) := by
  induction js with
  | nil => simp [levelCount]
  | cons k js ih => simp [levelCount, ih, max_assoc]

theorem levelCount_concat (j : J) :
    levelCount level (js ++ [j]) = max (levelCount level js) (level j + 1) := by
  rw [levelCount_append]
  simp [levelCount]

theorem flatten_modify_perm {rows : List (List α)} (a : α) {k : Nat} (hk : k < rows.length) :
    (rows.modify k (· ++ [a])).flatten.Perm (rows.flatten ++ [a]) := by
  induction rows generalizing k with
  | nil => exact absurd hk (Nat.not_lt_zero k)
  | cons row rows ih =>
    cases k with
    | zero =>
      show (row ++ [a] ++ rows.flatten).Perm (row ++ rows.flatten ++ [a])
      rw [append_assoc, append_assoc]
      exact perm_append_comm.append_left row
    | succ k =>
      show (row ++ _).Perm (row ++ rows.flatten ++ [a])
      rw [append_assoc]
      exact (ih (lt_of_succ_lt_succ hk)).append_left row

/-- Level by level, every job once. -/
theorem levelTable_flatten_perm (h : ∀ j ∈ js, level j < n) :
    (levelTable level out n js).flatten.Perm (js.map out) := by
  induction js using reverseRecOn with
  | nil => simp [levelTable]
  | append_singleton js j ih =>
    rw [forall_mem_append, forall_mem_singleton] at h
    rw [levelTable_concat, map_append]
    exact (flatten_modify_perm _ (by simpa using h.2)).trans ((ih h.1).append_right _)

/-- `lev` numbers the rows of a table from the first one on. -/
@[mk_iff]
structure Ascending (lev : α → Nat) (rows : List (List α)) : Prop where
  between : rows.Pairwise (fun A B => ∀ x ∈ A, ∀ y ∈ B, lev x < lev y)
  within : ∀ A ∈ rows, ∀ x ∈ A, ∀ y ∈ A, lev x = lev y

variable {lev : α → Nat}

theorem levelTable_ascending
    (h : ∀ j ∈ js, lev (out j) = level j) : Ascending lev (levelTable level out n js) := by
  have hrow : ∀ k, ∀ x ∈ (js.filter (fun j => level j = k)).map out, lev x = k := by
    intro k x hx
    obtain ⟨j, hj, rfl⟩ := mem_map.mp hx
    obtain ⟨hmem, hlevel⟩ := mem_filter.mp hj
    rw [h j hmem]
    exact of_decide_eq_true hlevel
  refine ⟨?_, ?_⟩
  · rw [levelTable, pairwise_map]
    refine pairwise_lt_range.imp ?_
    intro i k hik x hx y hy
    rw [hrow i x hx, hrow k y hy]
    exact hik
  · intro A hA x hx y hy
    obtain ⟨k, _, rfl⟩ := mem_map.mp hA
    rw [hrow k x hx, hrow k y hy]

variable {rows : List (List α)}

theorem Ascending.filter (h : Ascending lev rows)
    (p : List α → Bool) : Ascending lev (rows.filter p) :=
  ⟨h.between.filter p, fun A hA => h.within A (mem_of_mem_filter hA)⟩

theorem ascending_map {β : Type} {lev : β → Nat} {f : α → β} :
    Ascending lev (rows.map (map f)) ↔ Ascending (fun x => lev (f x)) rows := by
  simp only [ascending_iff, pairwise_map, forall_mem_map]

/-- A smaller number means an earlier row. -/
theorem Ascending.index_lt (h : Ascending lev rows)
    {a b : Nat} {A B : List α} (ha : rows[a]? = some A) (hb : rows[b]? = some B) {x y : α}
    (hx : x ∈ A) (hy : y ∈ B) (hlt : lev x < lev y) : a < b := by
  obtain ⟨ha', rfl⟩ := List.getElem?_eq_some_iff.mp ha
  obtain ⟨hb', rfl⟩ := List.getElem?_eq_some_iff.mp hb
  rcases Nat.lt_trichotomy a b with hab | rfl | hab
  · exact hab
  · have := h.within _ (getElem_mem ha') x hx y hy
    omega
  · have := (pairwise_iff_getElem.mp h.between) b a hb' ha' hab y hy x hx
    omega

/-- The table, resized so that it has level `k`. -/
theorem levelTable_resize (k : Nat) : levelTable level out (levelCount level js) js ++
        replicate (k + 1 - levelCount level js) [] =
      levelTable level out (max (levelCount level js) (k + 1)) js := by
  have hmax : max (levelCount level js) (k + 1) =
      levelCount level js + (k + 1 - levelCount level js) := by omega
  rw [hmax, levelTable_grow level out ((levelCount_le level).mp le_rfl)]

/-- Each job's slot is the number of earlier jobs of its level. -/
def Slotted (slot : J → Nat) (js : List J) : Prop :=
  ∀ pre j post, js = pre ++ j :: post → slot j = (pre.filter (fun k => level k = level j)).length

variable {level} {slot : J → Nat}

theorem slotted_nil : Slotted level slot [] := by
  intro pre j post h
  exact absurd h (by simp)

variable {j : J}

theorem Slotted.concat (h : Slotted level slot js)
    (hj : slot j = (js.filter (fun k => level k = level j)).length) :
    Slotted level slot (js ++ [j]) := by
  intro pre k post heq
  rcases prefix_concat_iff.mp (show pre ++ [k] <+: js ++ [j] from ⟨post, by simp [heq]⟩) with
    hlast | ⟨post', hpost⟩
  · obtain ⟨rfl, rfl⟩ := append_singleton_inj.mp hlast
    exact hj
  · exact h pre k post' (by simpa using hpost.symm)

section
variable {js : List J} (h : Slotted level slot js)
include h

theorem Slotted.slot_lt (hj : j ∈ js) : slot j < js.length := by
  obtain ⟨pre, post, rfl⟩ := append_of_mem hj
  rw [h pre j post rfl, length_append, length_cons]
  have := length_filter_le (fun k => decide (level k = level j)) pre
  omega

/-- A job stands in its slot. -/
theorem Slotted.getElem? (hj : j ∈ js) :
    (js.filter (fun k => level k = level j))[slot j]? = some j := by
  obtain ⟨pre, post, rfl⟩ := append_of_mem hj
  rw [h pre j post rfl, filter_append, getElem?_append_right le_rfl, Nat.sub_self,
    filter_cons_of_pos (by simp)]
  rfl

/-- **SLOTS ARE DISTINCT**: level and slot determine the job. -/
theorem Slotted.nodup : (js.map (fun j => (level j, slot j))).Nodup := by
  induction js using reverseRecOn with
  | nil => exact nodup_nil
  | append_singleton js j ih =>
    have hjs : Slotted level slot js := by
      intro pre k post heq
      exact h pre k (post ++ [j]) (by rw [heq]; simp)
    rw [map_append, nodup_append]
    refine ⟨ih hjs, nodup_singleton _, ?_⟩
    intro a ha b hb hab
    obtain ⟨k, hk, rfl⟩ := mem_map.mp ha
    rw [map_singleton, mem_singleton] at hb
    obtain ⟨hlevel, hslot⟩ := Prod.mk.inj (hab.trans hb)
    -- an earlier job of the level has a smaller slot
    obtain ⟨pre, post, rfl⟩ := append_of_mem hk
    have hj := h (pre ++ k :: post) j [] rfl
    rw [← hslot, hjs pre k post rfl, filter_append,
      filter_cons_of_pos (by simpa using hlevel), length_append, length_cons, hlevel] at hj
    omega

end

end

namespace AggTree

variable {I J Id : Type} {L : Labels I J Id}

/-- The jobs whose sub-tree has height `k`, left to right. -/
def atHeight (k : Nat) : AggTree I J → List J
  | input _ => []
  | wrap j c => c.atHeight k ++ if c.height + 1 = k then [j] else []
  | pair j l r =>
    l.atHeight k ++ r.atHeight k ++ if max l.height r.height + 1 = k then [j] else []

/-- The topmost job. -/
def top : AggTree I J → Option J
  | input _ => none
  | wrap j _ => some j
  | pair j _ _ => some j

variable {t : AggTree I J}

theorem atHeight_eq_nil (h : t.height < k) : t.atHeight k = [] := by
  induction t with
  | input i => rfl
  | wrap j c ih =>
    rw [height] at h
    rw [atHeight, ih (by omega), if_neg (by omega), append_nil]
  | pair j l r ihl ihr =>
    rw [height] at h
    rw [atHeight, ihl (by omega), ihr (by omega), if_neg (by omega), append_nil, append_nil]

/-- Only the topmost job has the full height. -/
theorem atHeight_height (t : AggTree I J) : t.atHeight t.height = t.top.toList := by
  cases t with
  | input i => rfl
  | wrap j c =>
    rw [height, atHeight, atHeight_eq_nil (by omega), if_pos rfl]
    rfl
  | pair j l r =>
    rw [height, atHeight, atHeight_eq_nil (by omega), atHeight_eq_nil (by omega), if_pos rfl]
    rfl

/-- The level of a job is the height of what it combines. -/
def LevelIsHeight (L : Labels I J Id) : AggTree I J → Prop :=
  Each (fun j c => L.level j = c.height) (fun j l r => L.level j = max l.height r.height)

/-- The jobs of a level are the jobs of the next height. -/
theorem LevelIsHeight.atHeight_succ (h : t.LevelIsHeight L) (k : Nat) :
    t.atHeight (k + 1) = t.jobs.filter (fun j => L.level j = k) := by
  induction t with
  | input i => rfl
  | wrap j c ih =>
    rw [atHeight, jobs, filter_append, ← ih h.2, ← h.1]
    by_cases hj : L.level j = k
    · simp [hj]
    · simp [hj]
  | pair j l r ihl ihr =>
    rw [atHeight, jobs, filter_append, filter_append, ← ihl h.2.1, ← ihr h.2.2, ← h.1]
    by_cases hj : L.level j = k
    · simp [hj]
    · simp [hj]

/-- The jobs fill exactly as many levels as the tree is high. -/
theorem LevelIsHeight.levelCount_jobs (h : t.LevelIsHeight L) :
    levelCount L.level t.jobs = t.height := by
  induction t with
  | input i => rfl
  | wrap j c ih =>
    rw [jobs, levelCount_concat, ih h.2, h.1, height]
    omega
  | pair j l r ihl ihr =>
    rw [jobs, levelCount_concat, levelCount_append, ihl h.2.1, ihr h.2.2, h.1, height]
    omega

theorem LevelIsHeight.level_lt (h : t.LevelIsHeight L) : ∀ k ∈ t.jobs, L.level k < t.height :=
  (levelCount_le L.level).mp h.levelCount_jobs.le

end AggTree

/-! ## §5. Slots of a binary counter. -/

section
variable {α β : Type}

/-- The occupied slots, highest first: the oldest element stands first. -/
def occupied : List (Option α) → List α
  | [] => []
  | none :: ws => occupied ws
  | some a :: ws => occupied ws ++ [a]

theorem occupied_concat (a b : α) (ws : List (Option α)) :
    occupied (some a :: ws) ++ [b] = occupied ws ++ [a, b] := by
  simp [occupied]

/-- `P i` of what stands in slot `i`, from the `k`-th slot on. -/
def SlotsOf (P : Nat → α → Prop) : Nat → List (Option α) → Prop
  | _, [] => True
  | k, none :: ws => SlotsOf P (k + 1) ws
  | k, some a :: ws => P k a ∧ SlotsOf P (k + 1) ws

variable {P : Nat → α → Prop} {ws : List (Option α)}

theorem SlotsOf.exists_of_mem (h : SlotsOf P k ws) : ∀ a ∈ occupied ws, ∃ i, k ≤ i ∧ P i a := by
  induction ws generalizing k with
  | nil => intro a ha; exact absurd ha (by simp [occupied])
  | cons w ws ih =>
    intro a ha
    have hrest : SlotsOf P (k + 1) ws → a ∈ occupied ws → ∃ i, k ≤ i ∧ P i a :=
      fun h ha => (ih h a ha).imp (fun _ hi => ⟨le_of_succ_le hi.1, hi.2⟩)
    cases w with
    | none => exact hrest h ha
    | some b =>
      rcases mem_append.mp ha with ha | ha
      · exact hrest h.2 ha
      · rw [mem_singleton.mp ha]
        exact ⟨k, le_rfl, h.1⟩

theorem SlotsOf.imp {P Q : Nat → α → Prop} (h : SlotsOf P k ws)
    (himp : ∀ i a, P i a → Q i a) : SlotsOf Q k ws := by
  induction ws generalizing k with
  | nil => trivial
  | cons w ws ih =>
    cases w with
    | none => exact ih h
    | some a => exact ⟨himp k a h.1, ih h.2⟩

/-- Empty slots below do not matter. -/
theorem occupied_replicate_append (n : Nat) (ws : List (Option α)) :
    occupied (replicate n none ++ ws) = occupied ws := by
  induction n with
  | zero => rfl
  | succ n ih => exact ih

theorem slotsOf_replicate_append (n k : Nat) (ws : List (Option α)) :
    SlotsOf P k (replicate n none ++ ws) ↔ SlotsOf P (k + n) ws := by
  induction n generalizing k with
  | zero => rfl
  | succ n ih =>
    rw [show k + (n + 1) = k + 1 + n by omega]
    exact ih (k + 1)

theorem occupied_replicate_none (n : Nat) : occupied (replicate n (none : Option α)) = [] := by
  simpa [occupied] using occupied_replicate_append n []

theorem slotsOf_replicate_none (n k : Nat) : SlotsOf P k (replicate n none) := by
  simpa using (slotsOf_replicate_append n k []).mpr trivial

theorem length_occupied_le (ws : List (Option α)) : (occupied ws).length ≤ ws.length := by
  induction ws with
  | nil => exact le_rfl
  | cons w ws ih =>
    cases w with
    | none => exact le_succ_of_le ih
    | some a => simpa [occupied] using ih

/-- The lowest occupied slot. -/
theorem exists_lowest (ws : List (Option α)) : occupied ws = [] ∧ ws = replicate ws.length none ∨
      ∃ n a rest, ws = replicate n none ++ some a :: rest := by
  induction ws with
  | nil => exact Or.inl ⟨rfl, rfl⟩
  | cons w ws ih =>
    cases w with
    | some a => exact Or.inr ⟨0, a, ws, rfl⟩
    | none =>
      rcases ih with ⟨hnil, hws⟩ | ⟨n, a, rest, hws⟩
      · refine Or.inl ⟨hnil, ?_⟩
        rw [length_cons, replicate_succ, ← hws]
      · exact Or.inr ⟨n + 1, a, rest, congrArg (none :: ·) hws⟩

theorem SlotsOf.of_getElem? {i : Nat} {a : α} (h : SlotsOf P k ws)
    (hi : ws[i]? = some (some a)) : P (k + i) a ∧ a ∈ occupied ws := by
  induction ws generalizing k i with
  | nil => cases hi
  | cons w ws ih =>
    cases i with
    | zero =>
      obtain rfl : w = some a := by simpa using hi
      exact ⟨h.1, by simp [occupied]⟩
    | succ i =>
      rw [add_succ, ← succ_add]
      cases w with
      | none => exact ih h hi
      | some b =>
        obtain ⟨ha, hmem⟩ := ih h.2 hi
        exact ⟨ha, mem_append_left _ hmem⟩

end

namespace AggTree

variable {I J : Type}

/-- A tree of height `k` with all its `2 ^ k` inputs. -/
def Perfect (k : Nat) (t : AggTree I J) : Prop := t.height = k ∧ t.inputs.length = 2 ^ k

theorem perfect_input (i : I) : Perfect 0 (input i : AggTree I J) := ⟨rfl, rfl⟩

theorem Perfect.pair {l r : AggTree I J} (hl : Perfect k l) (hr : Perfect k r) (j : J) :
    Perfect (k + 1) (pair j l r) := by
  refine ⟨?_, ?_⟩
  · rw [height, hl.1, hr.1, max_self]
  · rw [inputs, length_append, hl.2, hr.2, pow_succ]
    omega

/-- The slots of a binary counter from the `k`-th on: a perfect tree of height `i` or
nothing in slot `i`. -/
def Slots (k : Nat) (ws : List (Option (AggTree I J))) : Prop := SlotsOf Perfect k ws

variable {ws : List (Option (AggTree I J))}

theorem Slots.height_pos (h : Slots (k + 1) ws) : ∀ t ∈ occupied ws, 0 < t.height := by
  intro t ht
  obtain ⟨i, hi, hperfect⟩ := SlotsOf.exists_of_mem h t ht
  exact hperfect.1 ▸ Nat.succ_le_iff.mp (Nat.le_trans (Nat.le_add_left 1 k) hi)

/-- The first occupied slot, and the slots above it. -/
theorem Slots.first (h : Slots k ws) : (ws.filterMap id = [] ∧ occupied ws = []) ∨
      ∃ n t ws', ws.filterMap id = t :: ws'.filterMap id ∧ occupied ws = occupied ws' ++ [t] ∧
        Perfect n t ∧ Slots (n + 1) ws' := by
  induction ws generalizing k with
  | nil => exact Or.inl ⟨rfl, rfl⟩
  | cons w ws ih =>
    cases w with
    | none => exact ih h
    | some t => exact Or.inr ⟨k, t, ws, rfl, rfl, h.1, h.2⟩

/-- A tree of least height for its inputs. -/
def Balanced (t : AggTree I J) : Prop := t.height = Nat.clog 2 t.inputs.length

theorem Perfect.balanced {t : AggTree I J} (h : Perfect k t) : t.Balanced := by
  rw [Balanced, h.1, h.2, clog_pow 2 k (by omega)]

/-- Folding a smaller balanced tree under a perfect one keeps the height least. -/
theorem Balanced.pair_perfect {l r : AggTree I J} (hl : Perfect k l) (hr : r.Balanced)
    (hlt : r.inputs.length < 2 ^ k) (j : J) : (pair j l r).Balanced := by
  have hpos : 0 < r.inputs.length := length_pos_of_ne_nil r.inputs_ne_nil
  have hrk : r.height ≤ k := by
    rw [hr]
    exact (clog_le_iff_le_pow (by omega)).mpr hlt.le
  rw [Balanced, height, inputs, length_append, hl.1, hl.2, max_eq_left hrk]
  refine le_antisymm ?_ ?_
  · exact succ_le_of_lt ((lt_clog_iff_pow_lt (by omega)).mpr (by omega))
  · refine (clog_le_iff_le_pow (by omega)).mpr ?_
    omega

end AggTree

end PsyNode.Lib.Agg
