/-
PsyNode.Lib.TreeWalk
**WALKS OVER AGGREGATION TREES** that hand a key down from a node to its children.  A
recursive walk that follows dependencies by id visits the nodes of the tree with their
keys, parents first (`AggTree.walk_visits`).
-/
import PsyNode.Lib.ExceptBind
import PsyNode.Lib.AggTree

namespace PsyNode.Lib.Agg

open List

variable (t : AggTree I J)

namespace AggTree

variable {I J Id K : Type} (step : K → Nat → K)

/-! ## §1. Visits. -/

/-- The nodes with their keys, parents before children and left before right; `step k n`
is the key of the `n`-th child of a node with key `k`. -/
def visits : AggTree I J → K → List ((I ⊕ J) × K)
  | input i, k => [(.inl i, k)]
  | wrap j c, k => (.inr j, k) :: c.visits (step k 0)
  | pair j l r, k => (.inr j, k) :: (l.visits (step k 0) ++ r.visits (step k 1))

/-- The id of a node. -/
def nodeId (L : Labels I J Id) : I ⊕ J → Id := Sum.elim L.inputId L.jobId

/-- The topmost node has the key the walk starts with. -/
theorem exists_root_visit (L : Labels I J Id) (t : AggTree I J) (k : K) :
    ∃ node, (node, k) ∈ t.visits step k ∧ t.rootId L = nodeId L node := by
  cases t with
  | input i => exact ⟨.inl i, by simp [visits], rfl⟩
  | wrap j | pair j => exact ⟨.inr j, by simp [visits], rfl⟩

variable {t : AggTree I J} {L : Labels I J Id}

/-- **A CHILD'S KEY.**  What the `n`-th dependency of a visited job names is visited with
the `n`-th key below the job's. -/
theorem visits_dep (hw : t.Wired L) {p : J} {n : Nat} {d : Id}
    (hd : (L.deps p)[n]? = some d) {k₀ k : K} (hp : (.inr p, k) ∈ t.visits step k₀) :
    ∃ node, (node, step k n) ∈ t.visits step k₀ ∧ d = nodeId L node := by
  induction t generalizing k₀ k with
  | input i =>
    exact absurd hp (by simp [visits])
  | wrap j c ih =>
    rcases mem_cons.mp hp with hp | hp
    · obtain ⟨rfl, rfl⟩ : p = j ∧ k = k₀ := by simpa using hp
      rw [hw.1] at hd
      rcases n with _ | n
      · obtain rfl : c.rootId L = d := by simpa using hd
        obtain ⟨node, hmem, hid⟩ := exists_root_visit step L c (step k 0)
        exact ⟨node, mem_cons_of_mem _ hmem, hid⟩
      · cases hd
    · obtain ⟨node, hmem, hid⟩ := ih hw.2 hp
      exact ⟨node, mem_cons_of_mem _ hmem, hid⟩
  | pair j l r ihl ihr =>
    rcases mem_cons.mp hp with hp | hp
    · obtain ⟨rfl, rfl⟩ : p = j ∧ k = k₀ := by simpa using hp
      rw [hw.1] at hd
      -- the two dependencies are the roots of the two sides
      rcases n with _ | _ | n
      · obtain rfl : l.rootId L = d := by simpa using hd
        obtain ⟨node, hmem, hid⟩ := exists_root_visit step L l (step k 0)
        exact ⟨node, mem_cons_of_mem _ (mem_append_left _ hmem), hid⟩
      · obtain rfl : r.rootId L = d := by simpa using hd
        obtain ⟨node, hmem, hid⟩ := exists_root_visit step L r (step k 1)
        exact ⟨node, mem_cons_of_mem _ (mem_append_right _ hmem), hid⟩
      · cases hd
    · rcases mem_append.mp hp with hp | hp
      · obtain ⟨node, hmem, hid⟩ := ihl hw.2.1 hp
        exact ⟨node, mem_cons_of_mem _ (mem_append_left _ hmem), hid⟩
      · obtain ⟨node, hmem, hid⟩ := ihr hw.2.2 hp
        exact ⟨node, mem_cons_of_mem _ (mem_append_right _ hmem), hid⟩

/-- **A NODE'S KEY** is the one the walk starts with, or that of a child of a visited job. -/
theorem visits_parent (hw : t.Wired L) {node : I ⊕ J} {k₀ k : K}
    (h : (node, k) ∈ t.visits step k₀) :
    t.rootId L = nodeId L node ∧ k = k₀ ∨
      ∃ p kp n, (.inr p, kp) ∈ t.visits step k₀ ∧ (L.deps p)[n]? = some (nodeId L node) ∧
        k = step kp n := by
  induction t generalizing k₀ k with
  | input i =>
    obtain ⟨rfl, rfl⟩ := Prod.mk.inj (mem_singleton.mp h)
    exact Or.inl ⟨rfl, rfl⟩
  | wrap j c ih =>
    rcases mem_cons.mp h with h | h
    · cases h
      exact Or.inl ⟨rfl, rfl⟩
    · right
      rcases ih hw.2 h with ⟨hroot, rfl⟩ | ⟨p, kp, n, hp, hdep⟩
      · exact ⟨j, k₀, 0, mem_cons_self, by rw [hw.1, hroot]; rfl, rfl⟩
      · exact ⟨p, kp, n, mem_cons_of_mem _ hp, hdep⟩
  | pair j l r ihl ihr =>
    rcases mem_cons.mp h with h | h
    · cases h
      exact Or.inl ⟨rfl, rfl⟩
    · right
      rcases mem_append.mp h with h | h
      · rcases ihl hw.2.1 h with ⟨hroot, rfl⟩ | ⟨p, kp, n, hp, hdep⟩
        · exact ⟨j, k₀, 0, mem_cons_self, by rw [hw.1, hroot]; rfl, rfl⟩
        · exact ⟨p, kp, n, mem_cons_of_mem _ (mem_append_left _ hp), hdep⟩
      · rcases ihr hw.2.2 h with ⟨hroot, rfl⟩ | ⟨p, kp, n, hp, hdep⟩
        · exact ⟨j, k₀, 1, mem_cons_self, by rw [hw.1, hroot]; rfl, rfl⟩
        · exact ⟨p, kp, n, mem_cons_of_mem _ (mem_append_right _ hp), hdep⟩

/-- The visited jobs with their keys. -/
def jobVisits (t : AggTree I J) (k : K) : List (J × K) :=
  (t.visits step k).filterMap (fun v => v.1.getRight?.map (fun j => (j, v.2)))

/-- The visited inputs with their keys. -/
def inputVisits (t : AggTree I J) (k : K) : List (I × K) :=
  (t.visits step k).filterMap (fun v => v.1.getLeft?.map (fun i => (i, v.2)))

theorem mem_jobVisits {k₀ k : K} {j : J} :
    (j, k) ∈ t.jobVisits step k₀ ↔ (.inr j, k) ∈ t.visits step k₀ := by
  simp [jobVisits]

theorem mem_inputVisits {k₀ k : K} {i : I} :
    (i, k) ∈ t.inputVisits step k₀ ↔ (.inl i, k) ∈ t.visits step k₀ := by
  simp [inputVisits]

/-- **EVERY JOB IS VISITED ONCE.** -/
theorem jobVisits_perm (k : K) : ((t.jobVisits step k).map Prod.fst).Perm t.jobs := by
  induction t generalizing k with
  | input i => exact List.Perm.refl _
  | wrap j c ih =>
    have hvisits : (wrap j c).jobVisits step k = (j, k) :: c.jobVisits step (step k 0) := by
      simp [jobVisits, visits]
    rw [hvisits, map_cons, jobs]
    exact ((ih _).cons j).trans (perm_append_singleton j _).symm
  | pair j l r ihl ihr =>
    have hvisits : (pair j l r).jobVisits step k =
        (j, k) :: (l.jobVisits step (step k 0) ++ r.jobVisits step (step k 1)) := by
      simp [jobVisits, visits, filterMap_append]
    rw [hvisits, map_cons, map_append, jobs]
    exact (((ihl _).append (ihr _)).cons j).trans (perm_append_singleton j _).symm

/-- **EVERY INPUT IS VISITED ONCE**, left to right. -/
theorem inputVisits_fst (k : K) : (t.inputVisits step k).map Prod.fst = t.inputs := by
  induction t generalizing k with
  | input i => rfl
  | wrap j c ih =>
    have hvisits : (wrap j c).inputVisits step k = c.inputVisits step (step k 0) := by
      simp [inputVisits, visits, filterMap_cons]
    rw [hvisits, ih, inputs]
  | pair j l r ihl ihr =>
    have hvisits : (pair j l r).inputVisits step k =
        l.inputVisits step (step k 0) ++ r.inputVisits step (step k 1) := by
      simp [inputVisits, visits, filterMap_cons]
    rw [hvisits, map_append, ihl, ihr, inputs]

/-! ## §2. Ways down. -/

/-- The ways from the root to the nodes, in the order of the visits. -/
def words : AggTree I J → List (List Nat)
  | input _ => [[]]
  | wrap _ c => [] :: c.words.map (0 :: ·)
  | pair _ l r => [] :: (l.words.map (0 :: ·) ++ r.words.map (1 :: ·))

theorem visits_keys (k : K) :
    (t.visits step k).map Prod.snd = t.words.map (fun w => w.foldl step k) := by
  induction t generalizing k with
  | input i => rfl
  | wrap j c ih =>
    rw [visits, words, map_cons, map_cons, ih, map_map]
    rfl
  | pair j l r ihl ihr =>
    rw [visits, words, map_cons, map_cons, map_append, map_append, ihl, ihr, map_map, map_map]
    rfl

theorem words_nodup : t.words.Nodup := by
  have hcons : ∀ (n : Nat) {ws : List (List Nat)}, ws.Nodup → (ws.map (n :: ·)).Nodup := by
    intro n ws h
    exact h.map (cons_injective)
  induction t with
  | input i => exact nodup_singleton _
  | wrap j c ih =>
    rw [words, nodup_cons]
    exact ⟨by simp, hcons 0 ih⟩
  | pair j l r ihl ihr =>
    rw [words, nodup_cons, nodup_append]
    refine ⟨by simp, hcons 0 ihl, hcons 1 ihr, ?_⟩
    intro a ha b hb hab
    obtain ⟨w, _, rfl⟩ := mem_map.mp ha
    obtain ⟨w', _, rfl⟩ := mem_map.mp hb
    exact absurd (List.cons.inj hab).1 (by simp)

/-- A way down turns left or right at most as often as the tree is high. -/
theorem length_le_of_mem_words {w : List Nat} (h : w ∈ t.words) :
    w.length ≤ t.height ∧ ∀ b ∈ w, b < 2 := by
  induction t generalizing w with
  | input i =>
    obtain rfl := mem_singleton.mp h
    exact ⟨Nat.zero_le _, by simp⟩
  | wrap j c ih =>
    rcases mem_cons.mp h with rfl | h
    · exact ⟨Nat.zero_le _, by simp⟩
    · obtain ⟨v, hv, rfl⟩ := mem_map.mp h
      obtain ⟨hlength, hbits⟩ := ih hv
      exact ⟨Nat.succ_le_succ hlength, by simpa using hbits⟩
  | pair j l r ihl ihr =>
    rcases mem_cons.mp h with rfl | h
    · exact ⟨Nat.zero_le _, by simp⟩
    · rcases mem_append.mp h with h | h
      · obtain ⟨v, hv, rfl⟩ := mem_map.mp h
        obtain ⟨hlength, hbits⟩ := ihl hv
        exact ⟨Nat.succ_le_succ (hlength.trans (le_max_left _ _)), by simpa using hbits⟩
      · obtain ⟨v, hv, rfl⟩ := mem_map.mp h
        obtain ⟨hlength, hbits⟩ := ihr hv
        exact ⟨Nat.succ_le_succ (hlength.trans (le_max_right _ _)), by simpa using hbits⟩

section
variable {k : K} (hinj : ∀ w ∈ t.words, ∀ w' ∈ t.words, w.foldl step k = w'.foldl step k → w = w')
include hinj

/-- **DISTINCT KEYS**, when a key determines the way down to it. -/
theorem visits_keys_nodup : ((t.visits step k).map Prod.snd).Nodup := by
  rw [visits_keys]
  exact t.words_nodup.map_on hinj

theorem jobVisits_keys_nodup : ((t.jobVisits step k).map Prod.snd).Nodup := by
  have hvisits := visits_keys_nodup step hinj
  have hsublist : ((t.jobVisits step k).map Prod.snd).Sublist
      ((t.visits step k).map Prod.snd) := by
    rw [jobVisits, map_filterMap]
    generalize t.visits step k = vs
    induction vs with
    | nil => exact List.Sublist.refl _
    | cons v vs ih =>
      obtain ⟨node, key⟩ := v
      cases node with
      | inl i => exact ih.cons key
      | inr j => exact ih.cons_cons key
  exact hvisits.sublist hsublist

end

/-! ## §3. Walks. -/

/-- **A WALK BY IDS VISITS THE TREE.**  `walk` is given a depth that bounds its recursion;
`P` is what every visit keeps and what makes the ids be found. -/
theorem walk_visits {S ε : Type} (walk : Nat → Id → K → S → Except ε S) (visit : I ⊕ J → K → S → S)
    (P : S → Prop) (hkeep : ∀ node k s, P s → P (visit node k s)) : t.Wired L →
    (∀ i ∈ t.inputs, ∀ n k s, P s → walk (n + 1) (L.inputId i) k s = .ok (visit (.inl i) k s)) →
    (∀ j ∈ t.jobs, (L.deps j).length ≤ 2 → ∀ n k s, P s →
      walk (n + 2) (L.jobId j) k s = (L.deps j).zipIdx.foldlM
        (fun s d => walk (n + 1) d.1 (step k d.2) s) (visit (.inr j) k s)) →
    ∀ (n : Nat) (k : K) (s : S), t.height < n → P s →
      walk n (t.rootId L) k s =
        .ok ((t.visits step k).foldl (fun s v => visit v.1 v.2 s) s) := by
  have hfold : ∀ (vs : List ((I ⊕ J) × K)) (s : S), P s →
      P (vs.foldl (fun s v => visit v.1 v.2 s) s) := by
    intro vs
    induction vs with
    | nil => exact fun s hs => hs
    | cons v vs ih => exact fun s hs => ih _ (hkeep _ _ _ hs)
  induction t with
  | input i =>
    intro _ hin _ n k s hn hs
    obtain ⟨n, rfl⟩ : ∃ m, n = m + 1 := ⟨n - 1, by omega⟩
    exact hin i (by simp [inputs]) n k s hs
  | wrap j c ih =>
    intro hw hin hjob n k s hn hs
    simp only [height] at hn
    obtain ⟨n, rfl⟩ : ∃ m, n = m + 2 := ⟨n - 2, by omega⟩
    show walk (n + 2) (L.jobId j) k s = _
    rw [hjob j (by simp [jobs]) (by simp [hw.1]) n k s hs, hw.1]
    refine (bind_pure _).trans ?_
    exact ih hw.2 hin (fun q hq => hjob q (mem_append_left _ hq)) (n + 1) _ _ (by omega)
      (hkeep _ _ _ hs)
  | pair j l r ihl ihr =>
    intro hw hin hjob n k s hn hs
    simp only [height] at hn
    obtain ⟨n, rfl⟩ : ∃ m, n = m + 2 := ⟨n - 2, by omega⟩
    have hleft := ihl hw.2.1 (fun i hi => hin i (mem_append_left _ hi))
      (fun q hq => hjob q (mem_append_left _ (mem_append_left _ hq)))
      (n + 1) (step k 0) _ (by omega) (hkeep (.inr j) k s hs)
    have hright := ihr hw.2.2 (fun i hi => hin i (mem_append_right _ hi))
      (fun q hq => hjob q (mem_append_left _ (mem_append_right _ hq)))
      (n + 1) (step k 1) _ (by omega)
      (hfold (l.visits step (step k 0)) _ (hkeep (.inr j) k s hs))
    show walk (n + 2) (L.jobId j) k s = _
    rw [hjob j (by simp [jobs]) (by simp [hw.1]) n k s hs, hw.1]
    show (walk (n + 1) _ (step k 0) _ >>= fun s => walk (n + 1) _ (step k 1) s >>= pure) = _
    simp only [bind_pure]
    rw [hleft]
    show walk (n + 1) (r.rootId L) (step k 1) _ = _
    rw [hright, visits, foldl_cons, foldl_append]

end AggTree

end PsyNode.Lib.Agg
