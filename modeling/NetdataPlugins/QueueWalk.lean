import Mathlib.Algebra.Order.BigOperators.Group.List
import Mathlib.Data.Set.Card
import NetdataPlugins.FileTree
import NetdataPlugins.Queue

/-!
# The walk through the queue (queue.c, fs.c)

`measureDir` counts what lies below a directory. An entry whose type `readdir`
does not tell is looked at with `stat`, which follows links: what is no directory
counts as a file, and a link to a directory is walked through.

Paths are given below the start of the walk, the position `s`. A path that does
not fit into the buffer cannot be opened and does not come up here.
-/
namespace NetdataPlugins.QueueWalk
open MemoryBlock CString FileTree Queue

variable {ι : Type*} (fs : FileSystem ι)

/-- `is_directory`, where `stat` fails on a path that leads nowhere. -/
def isDirectory (s : ℕ × ι) (name : List Bytes) : ℤ :=
  match fs.resolve s name with
  | some t => if fs.IsDirectory t.2 then 1 else 0
  | none => -1

/-- The body of the loop of `measure_dir`; `measure` is the call for an entry. -/
def measureEntry (s : ℕ × ι) (measure : List Bytes → Option ℕ) (name : List Bytes) (res : ℕ)
    (de : Entry ι) : Option ℕ :=
  let path := name ++ [de.name]
  if de.Hidden then some res
  else match de.type with
    | .directory => (measure path).map fun n => res + n
    | .regular => some (res + 1)
    | .unknown =>
        if isDirectory fs s path ≠ 0 then (measure path).map fun n => res + n
        else some (res + 1)
    | _ => some res

/-- `fuel` bounds the depth of the calls. -/
def measureDir (s : ℕ × ι) : ℕ → List Bytes → Option ℕ
  | 0, _ => none
  | fuel + 1, name =>
      match fs.opendir s name with
      | none => some 0
      | some entries => entries.foldlM (measureEntry fs s (measureDir s fuel) name) 0

/-- The function of the watcher, for the positions of `mess` and `todo`. -/
def measureQueue (mess todo : ℕ × ι) (fuel : ℕ) : Option QueueStatistics :=
  (measureDir fs mess fuel []).bind fun m =>
    (measureDir fs todo fuel []).map fun t => ⟨m, t⟩

/-! ### Regular files, and what counts as one -/

/-- The paths to regular files that go through real directories and visible
names only. -/
inductive RealFile : ι → List Bytes → Prop
  | file {i : ι} {e : Entry ι} : e ∈ fs.entries i → ¬ e.Hidden → fs.node e.inode = .regular →
      RealFile i [e.name]
  | inside {i : ι} {e : Entry ι} {p : List Bytes} : e ∈ fs.entries i → ¬ e.Hidden →
      fs.IsDirectory e.inode → RealFile e.inode p → RealFile i (e.name :: p)

/-- An entry that the walk takes for a file. -/
def TakenForFile (s : ℕ × ι) (e : Entry ι) : Prop :=
  e.type = .regular ∨
    e.type = .unknown ∧ ∃ t, fs.follow s.1 e.inode = some t ∧ ¬ fs.IsDirectory t.2

/-- An entry behind which the walk goes on at `t`. -/
def WalkedInto (s : ℕ × ι) (e : Entry ι) (t : ℕ × ι) : Prop :=
  (e.type = .directory ∨ e.type = .unknown) ∧ fs.follow s.1 e.inode = some t ∧
    fs.IsDirectory t.2

/-- The paths through visible names, and through what is walked into, to an entry
that is taken for a file. -/
inductive Counted : ℕ × ι → List Bytes → Prop
  | file {s : ℕ × ι} {e : Entry ι} : e ∈ fs.entries s.2 → ¬ e.Hidden → TakenForFile fs s e →
      Counted s [e.name]
  | inside {s t : ℕ × ι} {e : Entry ι} {p : List Bytes} : e ∈ fs.entries s.2 → ¬ e.Hidden →
      WalkedInto fs s e t → Counted t p → Counted s (e.name :: p)

/-- The directories below a directory that real directories and visible names
lead to. -/
inductive RealDir : ι → ι → Prop
  | here (i : ι) : RealDir i i
  | inside {i j : ι} {e : Entry ι} : e ∈ fs.entries i → ¬ e.Hidden → fs.IsDirectory e.inode →
      RealDir e.inode j → RealDir i j

/-- An entry of unknown type that `stat` gives a wrong idea of: it is neither
file, directory nor link; or it is a link, and leads to what is no directory, or
to a directory in which something is counted. -/
def Misleads (links : ℕ) (e : Entry ι) : Prop :=
  e.type = .unknown ∧ (fs.node e.inode = .other ∨
    (fs.node e.inode).type = .link ∧ ∃ t, fs.follow links e.inode = some t ∧
      (¬ fs.IsDirectory t.2 ∨ ∃ p, Counted fs t p))

def Misled (s : ℕ × ι) : Prop :=
  ∃ d, RealDir fs s.2 d ∧ ∃ e ∈ fs.entries d, ¬ e.Hidden ∧ Misleads fs s.1 e

variable {fs}

theorem counted_entry {s : ℕ × ι} {e : Entry ι} (he : e ∈ fs.entries s.2) {p : List Bytes} :
    Counted fs s (e.name :: p) ↔ ¬ e.Hidden ∧
      (TakenForFile fs s e ∧ p = [] ∨ ∃ t, WalkedInto fs s e t ∧ Counted fs t p) := by
  constructor
  · generalize hq : e.name :: p = q
    intro h
    cases h with
    | file he' hvisible htaken =>
        obtain ⟨hname, rfl⟩ := List.cons.inj hq
        cases FileSystem.entry_unique he he' hname
        exact ⟨hvisible, .inl ⟨htaken, rfl⟩⟩
    | inside he' hvisible hinto hp =>
        obtain ⟨hname, rfl⟩ := List.cons.inj hq
        cases FileSystem.entry_unique he he' hname
        exact ⟨hvisible, .inr ⟨_, hinto, hp⟩⟩
  · rintro ⟨hvisible, ⟨htaken, rfl⟩ | ⟨t, hinto, hp⟩⟩
    · exact .file he hvisible htaken
    · exact .inside he hvisible hinto hp

theorem counted_head {s : ℕ × ι} {p : List Bytes} (h : Counted fs s p) :
    ∃ e ∈ fs.entries s.2, ∃ q, p = e.name :: q := by
  cases h with
  | file he _ _ => exact ⟨_, he, _, rfl⟩
  | inside he _ _ _ => exact ⟨_, he, _, rfl⟩

/-! ### The walk returns the number of these paths -/

variable (fs) in
/-- The paths of a list are those that are counted from `s`, and enough fuel
makes the walk from `s₀` return their number at every path to `s`. -/
def Measured (s₀ s : ℕ × ι) (L : List (List Bytes)) : Prop :=
  L.Nodup ∧ (∀ p, p ∈ L ↔ Counted fs s p) ∧
    ∃ N, ∀ n ≥ N, ∀ path, fs.resolve s₀ path = some s → measureDir fs s₀ n path = some L.length

variable (fs) in
/-- The same for one entry of the directory at `s`, and the names behind it. -/
def MeasuredEntry (s₀ s : ℕ × ι) (e : Entry ι) (L : List (List Bytes)) : Prop :=
  L.Nodup ∧ (∀ p, p ∈ L ↔ Counted fs s (e.name :: p)) ∧
    ∃ N, ∀ n ≥ N, ∀ path, fs.resolve s₀ path = some s →
      ∀ res, measureEntry fs s₀ (measureDir fs s₀ n) path res e = some (res + L.length)

theorem resolve_entry {s₀ s : ℕ × ι} {e : Entry ι} (he : e ∈ fs.entries s.2) {path : List Bytes}
    (hpath : fs.resolve s₀ path = some s) :
    fs.resolve s₀ (path ++ [e.name]) = fs.follow s.1 e.inode := by
  rw [FileSystem.resolve_concat, hpath, Option.bind_some, FileSystem.lookup_entry he]

theorem isDirectory_entry {s₀ s : ℕ × ι} {e : Entry ι} (he : e ∈ fs.entries s.2)
    {path : List Bytes} (hpath : fs.resolve s₀ path = some s) :
    isDirectory fs s₀ (path ++ [e.name]) = match fs.follow s.1 e.inode with
      | some t => if fs.IsDirectory t.2 then 1 else 0
      | none => -1 := by
  rw [isDirectory, resolve_entry he hpath]

theorem type_directory {i : ι} {e : Entry ι} (he : e ∈ fs.entries i)
    (htype : e.type = .directory) : fs.IsDirectory e.inode := by
  rcases fs.type_reported i e he with h | h
  · exact h.symm.trans htype
  · rw [htype] at h
    cases h

/-- A walk that leads nowhere ends at once. -/
theorem measureDir_unresolved {s₀ : ℕ × ι} {path : List Bytes}
    (hpath : fs.resolve s₀ path = none) {n : ℕ} (hn : n ≥ 1) :
    measureDir fs s₀ n path = some 0 := by
  obtain ⟨n, rfl⟩ := Nat.exists_eq_add_of_le' hn
  simp [measureDir, FileSystem.opendir, hpath]

section Entries
variable {s₀ s : ℕ × ι} {e : Entry ι}

theorem measuredEntry_skipped (hskip : ∀ p, ¬ Counted fs s (e.name :: p))
    (hres : ∀ measure path res, fs.resolve s₀ path = some s →
      measureEntry fs s₀ measure path res e = some res) :
    MeasuredEntry fs s₀ s e [] :=
  ⟨List.nodup_nil, fun p => by simpa using hskip p, 0,
    fun n _ path hpath res => hres _ path res hpath⟩

/-- One more file. -/
theorem measuredEntry_file (he : e ∈ fs.entries s.2) (hvisible : ¬ e.Hidden)
    (htaken : TakenForFile fs s e) (hnot : ∀ t, ¬ WalkedInto fs s e t)
    (hres : ∀ measure path res, fs.resolve s₀ path = some s →
      measureEntry fs s₀ measure path res e = some (res + 1)) :
    MeasuredEntry fs s₀ s e [[]] := by
  refine ⟨List.nodup_singleton _, fun p => ?_, 0, fun n _ path hpath res => hres _ path res hpath⟩
  simp [counted_entry he, hvisible, htaken, hnot]

/-- All that lies behind an entry. -/
theorem measuredEntry_inside (he : e ∈ fs.entries s.2) (hvisible : ¬ e.Hidden) {t : ℕ × ι}
    (hinto : WalkedInto fs s e t) (htaken : ¬ TakenForFile fs s e) {L : List (List Bytes)}
    (ht : Measured fs s₀ t L)
    (hres : ∀ measure path res, fs.resolve s₀ path = some s →
      measureEntry fs s₀ measure path res e =
        (measure (path ++ [e.name])).map fun n => res + n) :
    MeasuredEntry fs s₀ s e L := by
  obtain ⟨hnodup, hmem, N, hN⟩ := ht
  refine ⟨hnodup, fun p => ?_, N, fun n hn path hpath res => ?_⟩
  · rw [hmem, counted_entry he]
    constructor
    · exact fun hp => ⟨hvisible, .inr ⟨t, hinto, hp⟩⟩
    · rintro ⟨-, ⟨h, -⟩ | ⟨t', hinto', hp⟩⟩
      · exact absurd h htaken
      · cases hinto.2.1.symm.trans hinto'.2.1
        exact hp
  · have hstep : fs.resolve s₀ (path ++ [e.name]) = some t := by
      rw [resolve_entry he hpath, hinto.2.1]
    rw [hres _ path res hpath, hN n hn _ hstep, Option.map_some]

theorem measuredEntry_ignored (he : e ∈ fs.entries s.2) (hvisible : ¬ e.Hidden)
    (hignored : e.type = .link ∨ e.type = .other) : MeasuredEntry fs s₀ s e [] := by
  rcases hignored with htype | htype
  all_goals
    refine measuredEntry_skipped (fun p hp => ?_) fun _ _ _ _ => ?_
    · simp [counted_entry he, TakenForFile, WalkedInto, htype] at hp
    · simp [measureEntry, hvisible, htype]

/-- The branch that asks `is_directory`. -/
theorem exists_measuredEntry_unknown (he : e ∈ fs.entries s.2) (hvisible : ¬ e.Hidden)
    (htype : e.type = .unknown) (ih : ∀ t, WalkedInto fs s e t → ∃ L, Measured fs s₀ t L) :
    ∃ L, MeasuredEntry fs s₀ s e L := by
  cases hfollow : fs.follow s.1 e.inode with
  | none =>
      -- `stat` fails, and so does `opendir` in the call that follows.
      refine ⟨[], List.nodup_nil, fun p => ?_, 1, fun n hn path hpath res => ?_⟩
      · simp [counted_entry he, TakenForFile, WalkedInto, htype, hfollow]
      · have hnone : fs.resolve s₀ (path ++ [e.name]) = none := by
          rw [resolve_entry he hpath, hfollow]
        simp [measureEntry, hvisible, htype, isDirectory, hnone, measureDir_unresolved hnone hn]
  | some t =>
      by_cases hdir : fs.IsDirectory t.2
      · have hinto : WalkedInto fs s e t := ⟨.inr htype, hfollow, hdir⟩
        obtain ⟨L, hL⟩ := ih t hinto
        refine ⟨L, measuredEntry_inside he hvisible hinto ?_ hL fun _ _ _ hpath => ?_⟩
        · simp [TakenForFile, htype, hfollow, hdir]
        · simp [measureEntry, hvisible, htype, isDirectory_entry he hpath, hfollow, hdir]
      · refine ⟨[[]], measuredEntry_file he hvisible (.inr ⟨htype, t, hfollow, hdir⟩)
          (fun t' ht' => ?_) fun _ _ _ hpath => ?_⟩
        · cases hfollow.symm.trans ht'.2.1
          exact hdir ht'.2.2
        · simp [measureEntry, hvisible, htype, isDirectory_entry he hpath, hfollow, hdir]

/-- The cases of the loop body. -/
theorem exists_measuredEntry (he : e ∈ fs.entries s.2)
    (ih : ¬ e.Hidden → ∀ t, WalkedInto fs s e t → ∃ L, Measured fs s₀ t L) :
    ∃ L, MeasuredEntry fs s₀ s e L := by
  by_cases hvisible : e.Hidden
  · refine ⟨[], measuredEntry_skipped (fun p hp => ?_) fun _ _ _ _ => ?_⟩
    · exact ((counted_entry he).mp hp).1 hvisible
    · simp [measureEntry, hvisible]
  replace ih := ih hvisible
  cases htype : e.type with
  | directory =>
      have hdir := type_directory he htype
      have hinto : WalkedInto fs s e (s.1, e.inode) :=
        ⟨.inl htype, FileSystem.follow_directory s.1 hdir, hdir⟩
      obtain ⟨L, hL⟩ := ih _ hinto
      refine ⟨L, measuredEntry_inside he hvisible hinto ?_ hL fun _ _ _ _ => ?_⟩
      · simp [TakenForFile, htype]
      · simp [measureEntry, hvisible, htype]
  | regular =>
      refine ⟨[[]], measuredEntry_file he hvisible (.inl htype) (fun t ht => ?_)
        fun _ _ _ _ => ?_⟩
      · simp [WalkedInto, htype] at ht
      · simp [measureEntry, hvisible, htype]
  | link => exact ⟨[], measuredEntry_ignored he hvisible (.inl htype)⟩
  | other => exact ⟨[], measuredEntry_ignored he hvisible (.inr htype)⟩
  | unknown => exact exists_measuredEntry_unknown he hvisible htype ih

end Entries

theorem foldlM_add {α : Type*} {f : ℕ → α → Option ℕ} {g : α → ℕ} {xs : List α}
    (h : ∀ x ∈ xs, ∀ res, f res x = some (res + g x)) (res : ℕ) :
    xs.foldlM f res = some (res + (xs.map g).sum) := by
  induction xs generalizing res with
  | nil => simp
  | cons x xs ih =>
      rw [List.foldlM_cons, h x (by simp), Option.bind_eq_bind, Option.bind_some,
        ih fun y hy => h y (by simp [hy])]
      simp [Nat.add_assoc]

/-- The walk goes through the entries of one directory, with the walks behind
them done. -/
theorem exists_measured (s₀ s : ℕ × ι) : ∃ L, Measured fs s₀ s L := by
  induction s using (@FileSystem.enters_wellFounded ι fs).induction with
  | _ s ih =>
  have hentry : ∀ e ∈ fs.entries s.2, ∃ L, MeasuredEntry fs s₀ s e L := fun e he =>
    exists_measuredEntry he fun hvisible t ht => ih t ⟨e, he, hvisible, ht.2⟩
  choose! L hnodup hmem N hN using hentry
  refine ⟨(fs.entries s.2).flatMap fun e => (L e).map (e.name :: ·), ?_, fun p => ?_,
    ((fs.entries s.2).map N).sum + 1, fun n hn path hpath => ?_⟩
  · rw [List.nodup_flatMap]
    refine ⟨fun e he => (hnodup e he).map (List.cons_injective), ?_⟩
    refine (List.pairwise_map.mp (fs.names_nodup s.2)).imp fun hne => ?_
    intro p hp hp'
    obtain ⟨q, -, rfl⟩ := List.mem_map.mp hp
    obtain ⟨q', -, hq'⟩ := List.mem_map.mp hp'
    exact hne (List.cons.inj hq').1.symm
  · simp only [List.mem_flatMap, List.mem_map]
    constructor
    · rintro ⟨e, he, q, hq, rfl⟩
      exact (hmem e he q).mp hq
    · intro hp
      obtain ⟨e, he, q, rfl⟩ := counted_head hp
      exact ⟨e, he, q, (hmem e he q).mpr hp, rfl⟩
  · obtain ⟨n, rfl⟩ := Nat.exists_eq_add_of_le' (Nat.le_of_add_left_le hn)
    have hfuel : ∀ e ∈ fs.entries s.2, n ≥ N e := fun e he =>
      (List.le_sum_of_mem (List.mem_map_of_mem he)).trans (by omega)
    have hloop := foldlM_add (g := fun e => (L e).length)
      (fun e he res => hN e he n (hfuel e he) path hpath res) 0
    rw [measureDir, FileSystem.opendir_resolved hpath]
    by_cases hdir : fs.IsDirectory s.2
    · rw [if_pos hdir]
      simpa [List.length_flatMap] using hloop
    · simp [hdir, FileSystem.entries_eq_nil hdir]

theorem counted_finite (s : ℕ × ι) : {p | Counted fs s p}.Finite := by
  obtain ⟨L, -, hmem, -⟩ : ∃ L, Measured fs s s L := exists_measured s s
  exact L.finite_toSet.subset fun p hp => (hmem p).mpr hp

theorem measureDir_counted (s : ℕ × ι) :
    ∃ N, ∀ n ≥ N, measureDir fs s n [] = some {p | Counted fs s p}.ncard := by
  obtain ⟨L, hnodup, hmem, N, hN⟩ : ∃ L, Measured fs s s L := exists_measured s s
  have hset : {p | Counted fs s p} = (L.toFinset : Set (List Bytes)) := by
    ext p
    simp [hmem]
  refine ⟨N, fun n hn => ?_⟩
  rw [hN n hn [] rfl, hset, Set.ncard_coe_finset, List.toFinset_card_of_nodup hnodup]

/-- Both walks of the watcher end, each with its own number. -/
theorem measureQueue_counted (mess todo : ℕ × ι) :
    ∃ N, ∀ n ≥ N, measureQueue fs mess todo n =
      some ⟨{p | Counted fs mess p}.ncard, {p | Counted fs todo p}.ncard⟩ := by
  obtain ⟨N, hN⟩ : ∃ N, ∀ n ≥ N, measureDir fs mess n [] = some {p | Counted fs mess p}.ncard :=
    measureDir_counted mess
  obtain ⟨M, hM⟩ : ∃ M, ∀ n ≥ M, measureDir fs todo n [] = some {p | Counted fs todo p}.ncard :=
    measureDir_counted todo
  refine ⟨max N M, fun n hn => ?_⟩
  rw [measureQueue, hN n (le_of_max_le_left hn), hM n (le_of_max_le_right hn)]
  rfl

/-! ### When this is the number of regular files -/

theorem realFile_entry {i : ι} {e : Entry ι} (he : e ∈ fs.entries i) {p : List Bytes} :
    RealFile fs i (e.name :: p) ↔ ¬ e.Hidden ∧
      (fs.node e.inode = .regular ∧ p = [] ∨ fs.IsDirectory e.inode ∧ RealFile fs e.inode p) := by
  constructor
  · generalize hq : e.name :: p = q
    intro h
    cases h with
    | file he' hvisible hregular =>
        obtain ⟨hname, rfl⟩ := List.cons.inj hq
        cases FileSystem.entry_unique he he' hname
        exact ⟨hvisible, .inl ⟨hregular, rfl⟩⟩
    | inside he' hvisible hdir hp =>
        obtain ⟨hname, rfl⟩ := List.cons.inj hq
        cases FileSystem.entry_unique he he' hname
        exact ⟨hvisible, .inr ⟨hdir, hp⟩⟩
  · rintro ⟨hvisible, ⟨hregular, rfl⟩ | ⟨hdir, hp⟩⟩
    · exact .file he hvisible hregular
    · exact .inside he hvisible hdir hp

theorem regular_not_directory {i : ι} (h : fs.node i = .regular) : ¬ fs.IsDirectory i := by
  simp [FileSystem.IsDirectory, h, Node.type]

/-- No regular file is missed. -/
theorem counted_of_realFile {i : ι} {p : List Bytes} (h : RealFile fs i p) (links : ℕ) :
    Counted fs (links, i) p := by
  induction h with
  | @file i e he hvisible hregular =>
      refine .file he hvisible ?_
      rcases fs.type_reported i e he with htype | htype
      · exact .inl (by rw [htype, hregular]; rfl)
      · have hfollow : fs.follow links e.inode = some (links, e.inode) :=
          FileSystem.follow_of_ne_link links (by simp [hregular, Node.type])
        exact .inr ⟨htype, _, hfollow, regular_not_directory hregular⟩
  | @inside i e p he hvisible hdir _ ih =>
      have htype := fs.type_reported i e he
      rw [show (fs.node e.inode).type = .directory from hdir] at htype
      exact .inside he hvisible ⟨htype, FileSystem.follow_directory links hdir, hdir⟩ ih

/-- An entry that misleads the walk adds a path. -/
theorem misleads_counted {s : ℕ × ι} {e : Entry ι} (he : e ∈ fs.entries s.2)
    (hvisible : ¬ e.Hidden) (h : Misleads fs s.1 e) :
    ∃ p, Counted fs s p ∧ ¬ RealFile fs s.2 p := by
  obtain ⟨htype, hother | ⟨hlink, t, hfollow, hout | ⟨p, hp⟩⟩⟩ := h
  · have hfollow : fs.follow s.1 e.inode = some (s.1, e.inode) :=
      FileSystem.follow_of_ne_link s.1 (by simp [hother, Node.type])
    refine ⟨[e.name], .file he hvisible (.inr ⟨htype, _, hfollow, ?_⟩), ?_⟩
    · simp [FileSystem.IsDirectory, hother, Node.type]
    · simp [realFile_entry he, hother, FileSystem.IsDirectory, Node.type]
  · refine ⟨[e.name], .file he hvisible (.inr ⟨htype, t, hfollow, hout⟩), fun hreal => ?_⟩
    obtain ⟨-, ⟨hregular, -⟩ | ⟨hdir, -⟩⟩ := (realFile_entry he).mp hreal
    · simp [hregular, Node.type] at hlink
    · cases hlink.symm.trans hdir
  · by_cases hin : fs.IsDirectory t.2
    · refine ⟨e.name :: p, .inside he hvisible ⟨.inr htype, hfollow, hin⟩ hp, fun hreal => ?_⟩
      obtain ⟨-, ⟨hregular, -⟩ | ⟨hdir, -⟩⟩ := (realFile_entry he).mp hreal
      · simp [hregular, Node.type] at hlink
      · cases hlink.symm.trans hdir
    · obtain ⟨e', he', -⟩ := counted_head hp
      simp [FileSystem.entries_eq_nil hin] at he'

theorem misled_counted {s : ℕ × ι} (h : Misled fs s) :
    ∃ p, Counted fs s p ∧ ¬ RealFile fs s.2 p := by
  obtain ⟨links, i⟩ := s
  obtain ⟨d, hd, e, he, hvisible, hmisleads⟩ := h
  dsimp only at hd hmisleads
  induction hd with
  | here i => exact misleads_counted he hvisible hmisleads
  | @inside i j e' he' hvisible' hdir _ ih =>
      obtain ⟨p, hp, hreal⟩ := ih he
      have htype := fs.type_reported i e' he'
      rw [show (fs.node e'.inode).type = .directory from hdir] at htype
      refine ⟨e'.name :: p, .inside he' hvisible'
        ⟨htype, FileSystem.follow_directory links hdir, hdir⟩ hp, fun hfile => ?_⟩
      obtain ⟨-, ⟨hregular, -⟩ | ⟨-, hfile⟩⟩ := (realFile_entry he').mp hfile
      · exact regular_not_directory hregular hdir
      · exact hreal hfile

theorem misled_of_entry {s : ℕ × ι} {e : Entry ι} (he : e ∈ fs.entries s.2)
    (hvisible : ¬ e.Hidden) (h : Misleads fs s.1 e) : Misled fs s :=
  ⟨s.2, .here _, e, he, hvisible, h⟩

theorem misled_of_inside {s : ℕ × ι} {e : Entry ι} (he : e ∈ fs.entries s.2)
    (hvisible : ¬ e.Hidden) (hdir : fs.IsDirectory e.inode) (h : Misled fs (s.1, e.inode)) :
    Misled fs s := by
  obtain ⟨d, hd, hentry⟩ := h
  exact ⟨d, .inside he hvisible hdir hd, hentry⟩

/-- Where no entry misleads the walk, it counts regular files only. -/
theorem realFile_of_counted {s : ℕ × ι} {p : List Bytes} (h : Counted fs s p)
    (hs : ¬ Misled fs s) : RealFile fs s.2 p := by
  induction h with
  | @file s e he hvisible htaken =>
      refine .file he hvisible ?_
      have htype := fs.type_reported s.2 e he
      have hmisleads := mt (misled_of_entry he hvisible) hs
      rcases htaken with hregular | ⟨hunknown, t, hfollow, hout⟩
      · cases hnode : fs.node e.inode <;> simp_all [Node.type]
      cases hnode : fs.node e.inode with
      | regular => rfl
      | directory entries =>
          have hdir : fs.IsDirectory e.inode := by simp [FileSystem.IsDirectory, hnode, Node.type]
          rw [FileSystem.follow_directory s.1 hdir, Option.some_inj] at hfollow
          exact absurd hdir (by simpa [← hfollow] using hout)
      | link more target =>
          exact absurd ⟨hunknown, .inr ⟨by simp [hnode, Node.type], t, hfollow, .inl hout⟩⟩
            hmisleads
      | other => exact absurd ⟨hunknown, .inl hnode⟩ hmisleads
  | @inside s t e p he hvisible hinto hp ih =>
      have hmisleads := mt (misled_of_entry he hvisible) hs
      by_cases hdir : fs.IsDirectory e.inode
      · have hfollow := hinto.2.1
        rw [FileSystem.follow_directory s.1 hdir, Option.some_inj] at hfollow
        subst hfollow
        exact .inside he hvisible hdir (ih (mt (misled_of_inside he hvisible hdir) hs))
      by_cases hlink : (fs.node e.inode).type = .link
      · rcases hinto.1 with htype | hunknown
        · exact absurd (type_directory he htype) hdir
        · exact absurd ⟨hunknown, .inr ⟨hlink, t, hinto.2.1, .inr ⟨p, hp⟩⟩⟩ hmisleads
      · have hfollow := hinto.2.1
        rw [FileSystem.follow_of_ne_link s.1 hlink, Option.some_inj] at hfollow
        exact absurd hinto.2.2 (by simpa [← hfollow] using hdir)

/-- A directory with one entry, a pipe whose type is not told. -/
def pipeOnly : FileSystem Bool where
  node i := if i then .other else .directory [⟨lit "fifo", true, .unknown⟩]
  maxLinks := 40
  height _ := 0
  names_nodup := by decide
  type_reported := by decide
  height_lt := by decide
  target_resolved := by
    intro i more t h
    cases i <;> cases h

end NetdataPlugins.QueueWalk
