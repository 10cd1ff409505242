import Mathlib.Data.List.Nodup
import NetdataPlugins.MemoryBlock

/-!
# Directory trees with symbolic links

The directories of a file system form a tree of finite height. A symbolic link
may lead anywhere, also to a directory above it; the resolution of a path
follows a limited number of links. What `readdir` tells about an entry is its
type, or that the type is unknown.

A position is an inode with the number of links that were followed on the way.
A path is the list of its components. Every directory can be opened.
-/
namespace NetdataPlugins.FileTree
open MemoryBlock

inductive EntryType where
  | directory | regular | link | other | unknown
  deriving DecidableEq, Repr

structure Entry (ι : Type*) where
  name : Bytes
  inode : ι
  type : EntryType
  deriving DecidableEq, Repr

/-- `.`, `..`, and what is hidden by its name. -/
def Entry.Hidden {ι : Type*} (e : Entry ι) : Prop := e.name.head? = some 46

instance {ι : Type*} (e : Entry ι) : Decidable e.Hidden := inferInstanceAs (Decidable (_ = _))

/-- The text of a link leads to `target`, through `more` other links, or
nowhere. -/
inductive Node (ι : Type*) where
  | directory (entries : List (Entry ι))
  | regular
  | link (more : ℕ) (target : Option ι)
  | other

namespace Node
variable {ι : Type*}

def type : Node ι → EntryType
  | directory _ => .directory
  | regular => .regular
  | link _ _ => .link
  | other => .other

def entries : Node ι → List (Entry ι)
  | directory entries => entries
  | _ => []

end Node

structure FileSystem (ι : Type*) where
  node : ι → Node ι
  maxLinks : ℕ
  height : ι → ℕ
  names_nodup : ∀ i, ((node i).entries.map Entry.name).Nodup
  type_reported : ∀ i, ∀ e ∈ (node i).entries, e.type = (node e.inode).type ∨ e.type = .unknown
  height_lt : ∀ i, ∀ e ∈ (node i).entries, ¬ e.Hidden → (node e.inode).type = .directory →
    height e.inode < height i
  target_resolved : ∀ i more t, node i = .link more (some t) → (node t).type ≠ .link

namespace FileSystem
variable {ι : Type*} (fs : FileSystem ι)

def entries (i : ι) : List (Entry ι) := (fs.node i).entries

def IsDirectory (i : ι) : Prop := (fs.node i).type = .directory

instance (i : ι) : Decidable (fs.IsDirectory i) := inferInstanceAs (Decidable (_ = _))

/-- The position at an inode, behind it if it is a link. -/
def follow (links : ℕ) (i : ι) : Option (ℕ × ι) :=
  match fs.node i with
  | .link more target =>
      if links + more + 1 ≤ fs.maxLinks then target.map fun t => (links + more + 1, t) else none
  | _ => some (links, i)

/-- The position of one name in a directory. -/
def lookup (s : ℕ × ι) (name : Bytes) : Option (ℕ × ι) :=
  ((fs.entries s.2).find? fun e => e.name = name).bind fun e => fs.follow s.1 e.inode

def resolve (s : ℕ × ι) (path : List Bytes) : Option (ℕ × ι) := path.foldlM fs.lookup s

/-- The entries of the directory at a path. -/
def opendir (s : ℕ × ι) (path : List Bytes) : Option (List (Entry ι)) :=
  (fs.resolve s path).bind fun t =>
    match fs.node t.2 with
    | .directory entries => some entries
    | _ => none

variable {fs}

theorem resolve_concat (s : ℕ × ι) (path : List Bytes) (name : Bytes) :
    fs.resolve s (path ++ [name]) = (fs.resolve s path).bind fun t => fs.lookup t name := by
  simp [resolve, List.foldlM_append]

/-- A name stands for one entry. -/
theorem entry_unique {i : ι} {e e' : Entry ι} (he : e ∈ fs.entries i) (he' : e' ∈ fs.entries i)
    (hname : e.name = e'.name) : e = e' :=
  List.inj_on_of_nodup_map (fs.names_nodup i) he he' hname

theorem lookup_entry {s : ℕ × ι} {e : Entry ι} (he : e ∈ fs.entries s.2) :
    fs.lookup s e.name = fs.follow s.1 e.inode := by
  cases hfind : (fs.entries s.2).find? fun e' => e'.name = e.name with
  | none => exact absurd (List.find?_eq_none.mp hfind e he) (by simp)
  | some e' =>
      have hname : e'.name = e.name := by simpa using List.find?_some hfind
      rw [lookup, hfind, entry_unique (List.mem_of_find?_eq_some hfind) he hname, Option.bind_some]

theorem entries_eq_nil {i : ι} (h : ¬ fs.IsDirectory i) : fs.entries i = [] := by
  unfold IsDirectory at h
  unfold entries
  cases hnode : fs.node i with
  | directory _ => simp [hnode, Node.type] at h
  | _ => rfl

theorem opendir_resolved {s t : ℕ × ι} {path : List Bytes} (hpath : fs.resolve s path = some t) :
    fs.opendir s path = if fs.IsDirectory t.2 then some (fs.entries t.2) else none := by
  rw [opendir, hpath, Option.bind_some]
  cases hnode : fs.node t.2 <;> simp [IsDirectory, entries, hnode, Node.type, Node.entries]

theorem follow_of_ne_link {i : ι} (links : ℕ) (h : (fs.node i).type ≠ .link) :
    fs.follow links i = some (links, i) := by
  unfold follow
  cases hnode : fs.node i with
  | link _ _ => simp [hnode, Node.type] at h
  | _ => rfl

theorem follow_directory {i : ι} (links : ℕ) (h : fs.IsDirectory i) :
    fs.follow links i = some (links, i) :=
  follow_of_ne_link links (by rw [h]; decide)

/-! ### Walks -/

/-- A visible entry of the directory at `s` leads to the directory at `t`. -/
def Enters (s t : ℕ × ι) : Prop :=
  ∃ e ∈ fs.entries s.2, ¬ e.Hidden ∧ fs.follow s.1 e.inode = some t ∧ fs.IsDirectory t.2

/-- A step goes down in the tree or uses up links. -/
theorem Enters.rank_lt {s t : ℕ × ι} (h : fs.Enters s t) :
    Prod.Lex (· < ·) (· < ·) (fs.maxLinks - t.1, fs.height t.2)
      (fs.maxLinks - s.1, fs.height s.2) := by
  obtain ⟨e, he, hvisible, hfollow, hdir⟩ := h
  by_cases hown : fs.IsDirectory e.inode
  · rw [follow_directory _ hown, Option.some_inj] at hfollow
    subst hfollow
    exact .right _ (fs.height_lt s.2 e he hvisible hown)
  · apply Prod.Lex.left
    unfold follow at hfollow
    cases hnode : fs.node e.inode with
    | link more target =>
        simp only [hnode, Option.ite_none_right_eq_some, Option.map_eq_some_iff] at hfollow
        obtain ⟨hlinks, i, -, rfl⟩ := hfollow
        dsimp only
        omega
    | directory entries => simp [IsDirectory, hnode, Node.type] at hown
    | regular =>
        simp only [hnode, Option.some_inj] at hfollow
        simp [← hfollow, IsDirectory, hnode, Node.type] at hdir
    | other =>
        simp only [hnode, Option.some_inj] at hfollow
        simp [← hfollow, IsDirectory, hnode, Node.type] at hdir

/-- No walk goes on for ever, even where a link leads back up. -/
theorem enters_wellFounded : WellFounded fun t s => fs.Enters s t :=
  Subrelation.wf (fun h => Enters.rank_lt h)
    (InvImage.wf (fun s : ℕ × ι => (fs.maxLinks - s.1, fs.height s.2))
      (Prod.lex Nat.lt_wfRel Nat.lt_wfRel).wf)

end FileSystem
end NetdataPlugins.FileTree
