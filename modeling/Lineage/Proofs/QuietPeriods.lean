import Lineage.Watch.Debouncer
import Mathlib.Data.List.Induction
import Mathlib.Data.List.Nodup

/-! # What a debouncer releases, and when

The paths that wait say of everything that has happened no more than the time of the last
touch of each path that was not released since. That is enough: whether a path is released
depends on this time alone, so no touch is lost among those of other paths, many touches
are released as one, and a release comes no sooner than after the whole delay. -/

namespace Lineage

namespace Path

namespace Component

theorem order_eq_compareLex : order = compareLex (compareOn rank) (compareOn text) := rfl

instance : Std.TransCmp order := by
  rw [order_eq_compareLex]
  infer_instance

instance : Std.LawfulEqCmp order where
  eq_of_compare := by
    intro a b h
    obtain ⟨hrank, htext⟩ := Ordering.then_eq_eq.1 h
    have hrank := Std.LawfulEqCmp.eq_of_compare hrank
    have htext := Std.LawfulEqCmp.eq_of_compare htext
    cases a <;> cases b <;> simp_all [rank, text]

end Component

theorem order_eq_compareLex : order = List.compareLex Component.order := by
  funext as bs
  induction as generalizing bs with
  | nil => cases bs <;> rfl
  | cons a as ih =>
    cases bs with
    | nil => rfl
    | cons b bs => rw [order, List.compareLex_cons_cons, ih]

instance : Std.TransCmp order := by
  rw [order_eq_compareLex]
  infer_instance

instance : Std.LawfulEqCmp order := by
  rw [order_eq_compareLex]
  infer_instance

end Path

namespace Watch

/-! ## Histories -/

/-- What is asked of a debouncer: to note a touch of a path, or to give the quiet paths. -/
inductive Call where
  | touch (path : String) (time : Int)
  | take (now : Int)
deriving DecidableEq, Repr

/-- What has happened: a path was touched, or paths were released. -/
inductive Happening where
  | touched (path : String) (time : Int)
  | released (now : Int) (paths : List String)
deriving DecidableEq, Repr

/-- A path stands among others, in whatever spelling. -/
def Lists (paths : List String) (path : String) : Prop :=
  ∃ spelling ∈ paths, Path.same spelling path = true

namespace Happening

/-- The call that has brought it about. -/
def call : Happening → Call
  | touched path time => .touch path time
  | released now _ => .take now

/-- The path was touched, or is one of those that were released. -/
def Concerns (path : String) : Happening → Prop
  | touched spelling _ => Path.same spelling path = true
  | released _ paths => Lists paths path

end Happening

/-- A path was touched at a time, and since then neither touched again nor released. -/
def LastTouched (history : List Happening) (path : String) (time : Int) : Prop :=
  ∃ before spelling later, history = before ++ .touched spelling time :: later ∧
    Path.same spelling path = true ∧ ∀ h ∈ later, ¬ h.Concerns path

namespace Debouncer

def answer (d : Debouncer) : Call → Happening × Debouncer
  | .touch path time => (.touched path time, d.touch path time)
  | .take now => (.released now (d.takeReady now).1, (d.takeReady now).2)

def run (d : Debouncer) (calls : List Call) : List Happening × Debouncer :=
  calls.foldl (fun (history, d) call => (history ++ [(d.answer call).1], (d.answer call).2)) ([], d)

theorem run_append (d : Debouncer) (calls : List Call) (call : Call) :
    d.run (calls ++ [call]) = ((d.run calls).1 ++ [((d.run calls).2.answer call).1],
      ((d.run calls).2.answer call).2) := by
  simp [run, List.foldl_append]

end Debouncer

section
variable {history before later : List Happening} {happening earlier : Happening}
variable {path : String} {time : Int}

theorem split_append (h : history ++ [happening] = before ++ earlier :: later) :
    (history = before ∧ happening = earlier ∧ later = []) ∨
      ∃ between, later = between ++ [happening] ∧ history = before ++ earlier :: between := by
  rcases List.eq_nil_or_concat later with rfl | ⟨between, last, rfl⟩
  · obtain ⟨hhistory, hlast⟩ := List.append_inj' h rfl
    exact Or.inl ⟨hhistory, List.singleton_inj.1 hlast, rfl⟩
  · rw [List.concat_eq_append, ← List.cons_append, ← List.append_assoc] at h
    obtain ⟨hhistory, hlast⟩ := List.append_inj' h rfl
    obtain rfl := List.singleton_inj.1 hlast
    exact Or.inr ⟨between, List.concat_eq_append, hhistory⟩

/-- The last touch is what happens now, or was there before and is no concern of it. -/
theorem lastTouched_append : LastTouched (history ++ [happening]) path time ↔
    (∃ spelling, happening = .touched spelling time ∧ Path.same spelling path = true) ∨
      (¬ happening.Concerns path ∧ LastTouched history path time) := by
  constructor
  · rintro ⟨before, spelling, later, hsplit, hsame, hlater⟩
    rcases split_append hsplit with ⟨-, hnow, -⟩ | ⟨between, rfl, hhistory⟩
    · exact Or.inl ⟨spelling, hnow, hsame⟩
    · exact Or.inr ⟨hlater happening (by simp), before, spelling, between, hhistory, hsame,
        fun h hh => hlater h (List.mem_append_left _ hh)⟩
  · rintro (⟨spelling, rfl, hsame⟩ | ⟨hother, before, spelling, later, rfl, hsame, hlater⟩)
    · exact ⟨history, spelling, [], rfl, hsame, by simp⟩
    · refine ⟨before, spelling, later ++ [happening], by simp, hsame, fun h hh => ?_⟩
      rcases List.mem_append.1 hh with hh | hh
      · exact hlater h hh
      · rwa [List.mem_singleton.1 hh]

end

theorem same_iff {a b : String} :
    Path.same a b = true ↔ Path.components a = Path.components b := by
  simp [Path.same]

namespace Debouncer
variable {d : Debouncer} {path other : String} {time last now : Int}

/-- A path waits, and its last touch was at a time. -/
def Waits (d : Debouncer) (path : String) (time : Int) : Prop :=
  ∃ t ∈ d.waiting, Path.same t.path path = true ∧ t.time = time

/-- No path waits in two spellings. -/
def Distinct (d : Debouncer) : Prop :=
  (d.waiting.map fun t => Path.components t.path).Nodup

theorem Waits.unique (h : d.Distinct) (hlast : d.Waits path last) (htime : d.Waits path time) :
    last = time := by
  obtain ⟨a, ha, hapath, rfl⟩ := hlast
  obtain ⟨b, hb, hbpath, rfl⟩ := htime
  rw [same_iff] at hapath hbpath
  have hab : a = b := List.inj_on_of_nodup_map h ha hb (hapath.trans hbpath.symm)
  rw [hab]

/-- A touch sets the time of its path, which waits from then on, and of no other. -/
theorem waits_touch : (d.touch path time).Waits other last ↔
    (Path.same path other = true ∧ time = last) ∨
      (¬ Path.same path other = true ∧ d.Waits other last) := by
  unfold touch Waits
  simp only [same_iff]
  split
  · rename_i hwaits
    obtain ⟨old, hold, holdPath⟩ := List.any_eq_true.1 hwaits
    rw [same_iff] at holdPath
    constructor
    · rintro ⟨_, hmem, hother, rfl⟩
      obtain ⟨t, ht, rfl⟩ := List.mem_map.1 hmem
      by_cases hpath : Path.components t.path = Path.components path
      · rw [if_pos hpath] at hother ⊢
        exact Or.inl ⟨hpath.symm.trans hother, rfl⟩
      · rw [if_neg hpath] at hother ⊢
        exact Or.inr ⟨fun h => hpath (hother.trans h.symm), t, ht, hother, rfl⟩
    · rintro (⟨hother, rfl⟩ | ⟨hne, t, ht, hother, rfl⟩)
      · refine ⟨_, List.mem_map_of_mem hold, ?_⟩
        rw [if_pos holdPath]
        exact ⟨holdPath.trans hother, rfl⟩
      · refine ⟨_, List.mem_map_of_mem ht, ?_⟩
        rw [if_neg fun h => hne (h.symm.trans hother)]
        exact ⟨hother, rfl⟩
  · rename_i hnew
    have hnew : ∀ t ∈ d.waiting, Path.components t.path ≠ Path.components path := by
      simpa [same_iff] using hnew
    constructor
    · rintro ⟨t, ht, hother, rfl⟩
      rcases List.mem_append.1 ht with ht | ht
      · exact Or.inr ⟨fun h => hnew t ht (hother.trans h.symm), t, ht, hother, rfl⟩
      · obtain rfl := List.mem_singleton.1 ht
        exact Or.inl ⟨hother, rfl⟩
    · rintro (⟨hother, rfl⟩ | ⟨-, t, ht, hother, rfl⟩)
      · exact ⟨⟨path, time⟩, by simp, hother, rfl⟩
      · exact ⟨t, List.mem_append_left _ ht, hother, rfl⟩

theorem distinct_touch (h : d.Distinct) (path : String) (time : Int) :
    (d.touch path time).Distinct := by
  unfold touch
  unfold Distinct at h ⊢
  split
  · have hpath : ∀ t : Touched,
        (if Path.same t.path path = true then { t with time } else t).path = t.path := by
      intro t
      split <;> rfl
    rw [List.map_map]
    simpa only [Function.comp_def, hpath] using h
  · rename_i hnew
    have hnew : ∀ t ∈ d.waiting, Path.components t.path ≠ Path.components path := by
      simpa [same_iff] using hnew
    rw [List.map_append, List.nodup_append]
    refine ⟨h, List.nodup_singleton _, ?_⟩
    intro old hold new hmem
    obtain ⟨t, ht, rfl⟩ := List.mem_map.1 hold
    rw [List.map_singleton, List.mem_singleton] at hmem
    rw [hmem]
    exact hnew t ht

theorem isQuiet_iff {t : Touched} :
    d.isQuiet now t = true ↔ (d.delay : Int) ≤ max (now - t.time) 0 := by
  unfold isQuiet
  exact decide_eq_true_iff

theorem not_isQuiet_iff {t : Touched} :
    (!d.isQuiet now t) = true ↔ max (now - t.time) 0 < d.delay := by
  rw [Bool.not_eq_true', ← Bool.not_eq_true, isQuiet_iff, Int.not_le]

theorem waits_takeReady : (d.takeReady now).2.Waits path time ↔
    d.Waits path time ∧ max (now - time) 0 < d.delay := by
  unfold Waits takeReady
  simp only [List.mem_filter, not_isQuiet_iff]
  constructor
  · rintro ⟨t, ⟨ht, hquiet⟩, hsame, rfl⟩
    exact ⟨⟨t, ht, hsame, rfl⟩, hquiet⟩
  · rintro ⟨⟨t, ht, hsame, rfl⟩, hquiet⟩
    exact ⟨t, ⟨ht, hquiet⟩, hsame, rfl⟩

theorem lists_takeReady : Lists (d.takeReady now).1 path ↔
    ∃ time, d.Waits path time ∧ d.delay ≤ max (now - time) 0 := by
  unfold Lists Waits takeReady
  simp only [List.mem_map, List.mem_mergeSort, List.mem_filter, isQuiet_iff]
  constructor
  · rintro ⟨spelling, ⟨t, ⟨ht, hquiet⟩, rfl⟩, hsame⟩
    exact ⟨t.time, ⟨t, ht, hsame, rfl⟩, hquiet⟩
  · rintro ⟨time, ⟨t, ht, hsame, rfl⟩, hquiet⟩
    exact ⟨t.path, ⟨t, ⟨ht, hquiet⟩, rfl⟩, hsame⟩

theorem sorted_takeReady (h : d.Distinct) (now : Int) : (d.takeReady now).1.Pairwise fun a b =>
    Path.order (Path.components a) (Path.components b) = .lt := by
  have hdistinct : ((d.waiting.filter (d.isQuiet now)).mergeSort fun a b =>
      (Path.order (Path.components a.path) (Path.components b.path)).isLE).Pairwise
        fun a b => Path.components a.path ≠ Path.components b.path := by
    refine List.pairwise_map.1 (((List.mergeSort_perm _ _).map _).nodup_iff.2 ?_)
    exact (List.filter_sublist.map _).nodup h
  have htotal : ∀ a b : Touched,
      ((Path.order (Path.components a.path) (Path.components b.path)).isLE ||
        (Path.order (Path.components b.path) (Path.components a.path)).isLE) = true := by
    intro a b
    have hswap : Path.order (Path.components a.path) (Path.components b.path) =
        (Path.order (Path.components b.path) (Path.components a.path)).swap :=
      Std.OrientedCmp.eq_swap
    rw [hswap]
    cases Path.order (Path.components b.path) (Path.components a.path) <;> rfl
  have hsorted := List.pairwise_mergeSort (fun _ _ _ => Std.TransCmp.isLE_trans) htotal
    (d.waiting.filter (d.isQuiet now))
  unfold takeReady
  rw [List.pairwise_map]
  refine (hsorted.and hdistinct).imp fun {a b} ⟨hle, hne⟩ => ?_
  cases horder : Path.order (Path.components a.path) (Path.components b.path) with
  | lt => rfl
  | eq => exact absurd (Std.LawfulEqCmp.eq_of_compare horder) hne
  | gt =>
    rw [horder] at hle
    cases hle

end Debouncer

/-! ## Runs -/

/-- The releases in a history are those that a delay asks for. A path is released just when it
was touched and not released since, and its last touch is the delay ago or more, where a time
that lies before the touch counts as that of the touch. What is released is in the order of
paths and each path is there once. -/
def Punctual (delay : Nat) (history : List Happening) : Prop :=
  ∀ before now paths later, history = before ++ .released now paths :: later →
    (∀ path, Lists paths path ↔
      ∃ time, LastTouched before path time ∧ (delay : Int) ≤ max (now - time) 0) ∧
    paths.Pairwise fun a b => Path.order (Path.components a) (Path.components b) = .lt

/-- What a debouncer knows of a history, and what it has done in it. -/
structure Tracks (delay : Nat) (history : List Happening) (d : Debouncer) : Prop where
  sameDelay : d.delay = delay
  distinct : d.Distinct
  waits : ∀ path time, d.Waits path time ↔ LastTouched history path time
  punctual : Punctual delay history

section
variable {delay : Nat} {history : List Happening} {d : Debouncer} {happening : Happening}

theorem tracks_new (delay : Nat) : Tracks delay [] (.new delay) where
  sameDelay := rfl
  distinct := List.nodup_nil
  waits := by
    intro path time
    constructor
    · rintro ⟨t, ht, -⟩
      cases ht
    · rintro ⟨before, spelling, later, hhistory, -⟩
      simp at hhistory
  punctual := by
    intro before now paths later hhistory
    simp at hhistory

/-- Later happenings do not change what was released. -/
theorem Punctual.append (h : Punctual delay history)
    (hlast : ∀ now paths, happening = .released now paths →
      (∀ path, Lists paths path ↔
        ∃ time, LastTouched history path time ∧ (delay : Int) ≤ max (now - time) 0) ∧
      paths.Pairwise fun a b => Path.order (Path.components a) (Path.components b) = .lt) :
    Punctual delay (history ++ [happening]) := by
  intro before now paths later hsplit
  rcases split_append hsplit with ⟨rfl, hnow, -⟩ | ⟨between, -, hhistory⟩
  · exact hlast now paths hnow
  · exact h before now paths between hhistory

theorem Tracks.touch (h : Tracks delay history d) (path : String) (time : Int) :
    Tracks delay (history ++ [.touched path time]) (d.touch path time) where
  sameDelay := by
    have hkept : (d.touch path time).delay = d.delay := by
      unfold Debouncer.touch
      split <;> rfl
    rw [hkept, h.sameDelay]
  distinct := Debouncer.distinct_touch h.distinct path time
  waits := by
    intro other last
    rw [Debouncer.waits_touch, lastTouched_append, h.waits]
    refine or_congr_left ⟨?_, ?_⟩
    · rintro ⟨hsame, rfl⟩
      exact ⟨path, rfl, hsame⟩
    · rintro ⟨spelling, hhappening, hsame⟩
      cases hhappening
      exact ⟨hsame, rfl⟩
  punctual := h.punctual.append fun now paths hreleased => nomatch hreleased

theorem Tracks.takeReady (h : Tracks delay history d) (now : Int) :
    Tracks delay (history ++ [.released now (d.takeReady now).1]) (d.takeReady now).2 where
  sameDelay := h.sameDelay
  distinct := (List.filter_sublist.map _).nodup h.distinct
  waits := by
    intro path time
    rw [Debouncer.waits_takeReady, lastTouched_append]
    show _ ↔ _ ∨ (¬ Lists (d.takeReady now).1 path ∧ _)
    rw [Debouncer.lists_takeReady, ← h.waits]
    constructor
    · rintro ⟨hwaits, hearly⟩
      refine Or.inr ⟨?_, hwaits⟩
      rintro ⟨last, hlast, hquiet⟩
      rw [hlast.unique h.distinct hwaits] at hquiet
      omega
    · rintro (⟨spelling, hhappening, -⟩ | ⟨hkept, hwaits⟩)
      · cases hhappening
      · refine ⟨hwaits, ?_⟩
        by_contra hquiet
        exact hkept ⟨time, hwaits, by omega⟩
  punctual := by
    refine h.punctual.append fun now' paths hreleased => ?_
    obtain ⟨rfl, rfl⟩ := Happening.released.inj hreleased
    refine ⟨fun path => ?_, Debouncer.sorted_takeReady h.distinct now⟩
    rw [Debouncer.lists_takeReady, h.sameDelay]
    simp only [h.waits]

theorem Tracks.answer (h : Tracks delay history d) (call : Call) :
    Tracks delay (history ++ [(d.answer call).1]) (d.answer call).2 := by
  cases call with
  | touch path time => exact h.touch path time
  | take now => exact h.takeReady now

/-- Whatever the calls, a debouncer knows what has happened. -/
theorem tracks_run (delay : Nat) (calls : List Call) :
    Tracks delay ((Debouncer.new delay).run calls).1 ((Debouncer.new delay).run calls).2 := by
  induction calls using List.reverseRecOn with
  | nil => exact tracks_new delay
  | append_singleton calls call ih =>
    rw [Debouncer.run_append]
    exact ih.answer call

theorem Tracks.isEmpty_iff (h : Tracks delay history d) :
    d.isEmpty = true ↔ ∀ path time, ¬ LastTouched history path time := by
  unfold Debouncer.isEmpty
  rw [List.isEmpty_iff, List.eq_nil_iff_forall_not_mem]
  constructor
  · intro hnone path time hlast
    obtain ⟨t, ht, -⟩ := (h.waits path time).2 hlast
    exact hnone t ht
  · intro hnone t ht
    exact hnone t.path t.time ((h.waits t.path t.time).1 ⟨t, ht, same_iff.2 rfl, rfl⟩)

/-- A path that was touched was released after that, or has a last touch. -/
theorem released_or_lastTouched (before : List Happening) (spelling : String) (time : Int)
    (later : List Happening) :
    (∃ now paths, .released now paths ∈ later ∧ Lists paths spelling) ∨
      ∃ last, LastTouched (before ++ .touched spelling time :: later) spelling last := by
  induction later using List.reverseRecOn with
  | nil => exact Or.inr ⟨time, before, spelling, [], rfl, same_iff.2 rfl, by simp⟩
  | append_singleton later happening ih =>
    rw [← List.cons_append, ← List.append_assoc]
    simp only [lastTouched_append]
    rcases ih with ⟨now, paths, hmem, hlists⟩ | ⟨last, hlast⟩
    · exact Or.inl ⟨now, paths, List.mem_append_left _ hmem, hlists⟩
    · by_cases hconcerns : happening.Concerns spelling
      · cases happening with
        | touched other last => exact Or.inr ⟨last, Or.inl ⟨other, rfl, hconcerns⟩⟩
        | released now paths => exact Or.inl ⟨now, paths, by simp, hconcerns⟩
      · exact Or.inr ⟨last, Or.inr ⟨hconcerns, hlast⟩⟩

theorem LastTouched.mem_behind {before between : List Happening} {now : Int}
    {paths : List String} {path : String} {time : Int}
    (h : LastTouched (before ++ .released now paths :: between) path time)
    (hlists : Lists paths path) :
    ∃ spelling, .touched spelling time ∈ between ∧ Path.same spelling path = true := by
  obtain ⟨front, spelling, later, hsplit, hsame, hlater⟩ := h
  refine ⟨spelling, ?_, hsame⟩
  rcases List.append_eq_append_iff.1 hsplit with ⟨more, rfl, hmore⟩ | ⟨more, rfl, hmore⟩
  · cases more with
    | nil => cases hmore
    | cons first more =>
      rw [List.cons_append] at hmore
      rw [(List.cons.inj hmore).2]
      simp
  · cases more with
    | nil => cases hmore
    | cons first more =>
      rw [List.cons_append] at hmore
      rw [(List.cons.inj hmore).2] at hlater
      exact absurd hlists (hlater (.released now paths) (by simp))

end

theorem Debouncer.call_answer (d : Debouncer) (call : Call) : (d.answer call).1.call = call := by
  cases call <;> rfl

theorem Debouncer.calls_run (d : Debouncer) (calls : List Call) :
    (d.run calls).1.map Happening.call = calls := by
  induction calls using List.reverseRecOn with
  | nil => rfl
  | append_singleton calls call ih => simp [run_append, ih, call_answer]

/-- Every sequence of touches and takes, at whatever times, has a history in which each release
is the one that the delay asks for. A path that was touched has been released after that, or it
waits; between two releases of a path lies a touch of it, so that many touches before a release
are released once; and a debouncer is empty just when no path was touched since its release. -/
theorem debouncer_releases_quiet_paths (delay : Nat) (calls : List Call) :
    ∃ history d, (Debouncer.new delay).run calls = (history, d) ∧
      history.map Happening.call = calls ∧
      Punctual delay history ∧
      (∀ before spelling time later, history = before ++ .touched spelling time :: later →
        (∃ now paths, .released now paths ∈ later ∧ Lists paths spelling) ∨
          ∃ last, d.Waits spelling last) ∧
      (∀ path before now paths between again others later,
        history = before ++ .released now paths :: between ++ .released again others :: later →
        Lists paths path → Lists others path →
        ∃ spelling time, .touched spelling time ∈ between ∧ Path.same spelling path = true) ∧
      (d.isEmpty = true ↔ ∀ path time, ¬ LastTouched history path time) := by
  have htracks := tracks_run delay calls
  have hcalls := Debouncer.calls_run (.new delay) calls
  obtain ⟨history, d, hrun⟩ : ∃ history d, (Debouncer.new delay).run calls = (history, d) :=
    ⟨_, _, rfl⟩
  rw [hrun] at htracks hcalls
  refine ⟨history, d, hrun, hcalls, htracks.punctual, ?_, ?_, htracks.isEmpty_iff⟩
  · intro before spelling time later hhistory
    simp only [htracks.waits, hhistory]
    exact released_or_lastTouched before spelling time later
  · intro path before now paths between again others later hhistory hfirst hsecond
    have hexact := (htracks.punctual _ again others later hhistory).1 path
    obtain ⟨time, hlast, -⟩ := hexact.1 hsecond
    obtain ⟨spelling, hmem, hsame⟩ := hlast.mem_behind hfirst
    exact ⟨spelling, time, hmem, hsame⟩

/-- Two touches in two spellings are released as one, after the delay from the second. -/
example : ((Debouncer.new 500).run [.touch "in/a.json" 0, .touch "in//a.json" 300, .take 600,
      .take 800]).1.drop 2 = [.released 600 [], .released 800 ["in/a.json"]] := by
  decide +kernel

end Watch

end Lineage
