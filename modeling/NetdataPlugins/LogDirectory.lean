import Mathlib.Data.List.Flatten
import NetdataPlugins.MemoryBlock

/-!
# The log directory

At the start each plugin goes through the log directory. It passes over hidden
entries and over what is no directory, and sets up its watchers for the others.
Which these are is left to the plugin.
-/
namespace NetdataPlugins.LogDirectory
open MemoryBlock

/-- An entry of the log directory. For a file in it: the watch descriptor, if
`prepare_watcher` succeeds, and whether `open` does. -/
structure DirEntry where
  name : Bytes
  isDirectory : Bool
  watchDir (fileName : Bytes) : Option ℤ
  opens (fileName : Bytes) : Bool

variable {α β : Type}

/-- The turn of the loop for an entry; `watches` are those of a directory. -/
def ofEntry (watches : DirEntry → List α) (e : DirEntry) : List α :=
  if e.name.head? = some 46 then []
  else if e.isDirectory then watches e
  else []

def detectLogDirs (watches : DirEntry → List α) (entries : List DirEntry) : List α :=
  entries.flatMap (ofEntry watches)

variable {watches : DirEntry → List α} {entries : List DirEntry}

theorem mem_ofEntry {e : DirEntry} {a : α} (h : a ∈ ofEntry watches e) : a ∈ watches e := by
  unfold ofEntry at h
  split_ifs at h
  · cases h
  · exact h
  · cases h

theorem mem_detectLogDirs {a : α} (h : a ∈ detectLogDirs watches entries) :
    ∃ e ∈ entries, a ∈ watches e := by
  obtain ⟨e, he, ha⟩ := List.mem_flatMap.mp h
  exact ⟨e, he, mem_ofEntry ha⟩

theorem map_detectLogDirs (g : α → β) (watches : DirEntry → List α) (entries : List DirEntry) :
    (detectLogDirs watches entries).map g =
      detectLogDirs (fun e => (watches e).map g) entries := by
  have hone : (fun e => (ofEntry watches e).map g) = ofEntry fun e => (watches e).map g := by
    funext e
    unfold ofEntry
    split_ifs <;> rfl
  rw [detectLogDirs, List.map_flatMap, hone]
  rfl

/-- Directories with at most one watcher each, by a name which it keeps. -/
theorem detectLogDirs_sublist {g : α → β} {name : DirEntry → β}
    (h : ∀ e, ((watches e).map g).Sublist [name e]) (entries : List DirEntry) :
    ((detectLogDirs watches entries).map g).Sublist (entries.map name) := by
  rw [map_detectLogDirs]
  induction entries with
  | nil => exact List.Sublist.slnil
  | cons e entries ih =>
      have hone : (ofEntry (fun e => (watches e).map g) e).Sublist [name e] := by
        unfold ofEntry
        split_ifs
        · exact List.nil_sublist _
        · exact h e
        · exact List.nil_sublist _
      exact hone.append ih

end NetdataPlugins.LogDirectory
