import NetdataPlugins.KeyedTally
import NetdataPlugins.Smtp

/-!
# The limit vectors

What the functions of smtp.c do to a vector of rule names, as a list of keys
and as a tally for each key. A line that is denied raises one tally, a clear
sets all to zero, and postprocessing adds the tallies of one vector to another.
-/
namespace NetdataPlugins.LimitVectors
open MemoryBlock CString Smtp KeyedTally

def names (limit : List LimitT) : List Bytes := limit.map LimitT.rulename

/-- The names with their counts. -/
def entries (limit : List LimitT) : List (Bytes × ℤ) :=
  limit.map fun l => (l.rulename, l.count)

theorem entries_fst (limit : List LimitT) : (entries limit).map Prod.fst = names limit := by
  simp [entries, names]

/-- The counts of a vector for one name, added up. -/
def total (name : Bytes) (limit : List LimitT) : ℤ :=
  tally Prod.fst Prod.snd name (entries limit)

@[simp] theorem total_nil (name : Bytes) : total name [] = 0 := rfl

@[simp] theorem total_append (name : Bytes) (a b : List LimitT) :
    total name (a ++ b) = total name a + total name b := by
  simp [total, entries]

theorem total_singleton (name : Bytes) (l : LimitT) :
    total name [l] = if l.rulename = name then l.count else 0 := by
  simp [total, entries]

theorem total_of_notMem {name : Bytes} {limit : List LimitT} (h : name ∉ names limit) :
    total name limit = 0 :=
  tally_of_notMem (by rwa [entries_fst])

theorem total_raise (name : Bytes) (l : LimitT) (d : ℤ) (a b : List LimitT) :
    total name (a ++ { l with count := l.count + d } :: b) =
      total name (a ++ l :: b) + if l.rulename = name then d else 0 := by
  simp only [total, entries, List.map_append, List.map_cons]
  rw [tally_raise]
  · rfl
  · rfl

/-! ### `update_limit` -/

theorem lookup_concat (name : Bytes) (found : Option ℕ) (i : ℕ) (limits : List LimitT)
    (l : LimitT) :
    lookup name found i (limits ++ [l]) =
      if l.rulename = name then some (i + limits.length) else none := by
  induction limits generalizing found i with
  | nil => rfl
  | cons a limits ih =>
      rw [List.cons_append, lookup, ih, List.length_cons, Nat.add_right_comm, Nat.add_assoc]

theorem updateLimit_nil (junk : ℤ) (rulename : Bytes) :
    updateLimit junk [] rulename = [⟨1, ruleKey rulename, junk⟩] := rfl

/-- Only the last entry can be hit. -/
theorem updateLimit_concat (junk : ℤ) (limits : List LimitT) (l : LimitT) (rulename : Bytes) :
    updateLimit junk (limits ++ [l]) rulename =
      if l.rulename = ruleKey rulename then limits ++ [{ l with count := l.count + 1 }]
      else limits ++ [l] ++ [⟨1, ruleKey rulename, junk⟩] := by
  simp only [updateLimit, lookup_concat]
  split_ifs
  · simp [List.modify_eq_take_drop]
  · rfl

theorem names_updateLimit (junk : ℤ) (limits : List LimitT) (rulename : Bytes) :
    names (updateLimit junk limits rulename) = appendKey (names limits) (ruleKey rulename) := by
  induction limits using List.reverseRecOn with
  | nil => rfl
  | append_singleton limits l =>
      rw [updateLimit_concat, appendKey]
      by_cases h : l.rulename = ruleKey rulename <;> simp [names, h]

theorem total_updateLimit (junk : ℤ) (limits : List LimitT) (rulename name : Bytes) :
    total name (updateLimit junk limits rulename) =
      total name limits + if ruleKey rulename = name then 1 else 0 := by
  induction limits using List.reverseRecOn with
  | nil => simp [updateLimit_nil, total_singleton]
  | append_singleton limits l =>
      rw [updateLimit_concat]
      split_ifs with hlast hname hname
      · rw [total_raise, hlast, if_pos hname]
      · rw [total_raise, hlast, if_neg hname]
      · rw [total_append, total_singleton, if_pos hname]
      · rw [total_append, total_singleton, if_neg hname]

/-! ### `process_smtp` -/

/-- The limit for which a line counts, with the name of the rule. -/
def denied (line : Bytes) : Option (Limit × Bytes) :=
  if contains line (lit "tcpserver: ok") then none
  else do
    let ptr ← strstr line (lit "tcpserver: deny")
    let rulename ← strstr ptr (lit "(")
    let l ← denyLimit (rulename.tail)
    pure (l, ruleKey (rulename.tail))

/-- A line either leaves the limits alone or updates the one it counts for. -/
theorem processSmtp_ssv (junk : ℤ) (line : Bytes) (data : SmtpStatistics) :
    denied line = none ∧ (processSmtp junk line data).ssv = data.ssv ∨
    ∃ l rulename, denied line = some (l, ruleKey rulename) ∧
      (processSmtp junk line data).ssv =
        Function.update data.ssv l (updateLimit junk (data.ssv l) rulename) := by
  unfold denied processSmtp
  by_cases hok : contains line (lit "tcpserver: ok")
  · exact .inl (by simp [hok])
  · cases hdeny : strstr line (lit "tcpserver: deny") with
    | none => exact .inl (by simp [hok])
    | some ptr =>
        cases hopen : strstr ptr (lit "(") with
        | none => exact .inl (by simp [hok, processDeny, hopen])
        | some rulename =>
            cases hlimit : denyLimit (rulename.tail) with
            | none => exact .inl (by simp [hok, processDeny, hopen, hlimit])
            | some l =>
                exact .inr ⟨l, rulename.tail, by simp [hok, hopen, hlimit],
                  by simp [hok, processDeny, hopen, hlimit]⟩

/-- How often a line counts for a rule of a limit. -/
def hits (l : Limit) (name : Bytes) (line : Bytes) : ℤ :=
  if denied line = some (l, name) then 1 else 0

theorem total_processSmtp (junk : ℤ) (line : Bytes) (data : SmtpStatistics) (l : Limit)
    (name : Bytes) :
    total name ((processSmtp junk line data).ssv l) =
      total name (data.ssv l) + hits l name line := by
  rcases processSmtp_ssv junk line data with ⟨hnone, hssv⟩ | ⟨k, rulename, hsome, hssv⟩
  · simp [hssv, hits, hnone]
  · rw [hssv, hits, hsome]
    by_cases hl : l = k
    · subst hl
      simp [total_updateLimit]
    · simp [Function.update_of_ne hl, Ne.symm hl]

theorem mem_names_processSmtp (junk : ℤ) (line : Bytes) (data : SmtpStatistics) (l : Limit)
    (name : Bytes) :
    name ∈ names ((processSmtp junk line data).ssv l) ↔
      name ∈ names (data.ssv l) ∨ denied line = some (l, name) := by
  rcases processSmtp_ssv junk line data with ⟨hnone, hssv⟩ | ⟨k, rulename, hsome, hssv⟩
  · simp [hssv, hnone]
  · rw [hssv, hsome]
    by_cases hl : l = k
    · subst hl
      simp [names_updateLimit, mem_appendKey, eq_comm]
    · simp [Function.update_of_ne hl, Ne.symm hl]

/-! ### `clear_limits` and `postprocess_limits` -/

theorem names_clearLimits (limit : List LimitT) : names (clearLimits limit) = names limit := by
  simp [names, clearLimits]

theorem total_clearLimits (name : Bytes) (limit : List LimitT) :
    total name (clearLimits limit) = 0 := by
  have hzero : entries (clearLimits limit) = (entries limit).map fun e => (e.1, 0) := by
    simp [entries, clearLimits]
  rw [total, hzero]
  apply tally_map_zero
  intro e
  rfl

theorem addToEntry_eq_none {l : LimitT} {aggregated : List LimitT} :
    addToEntry l aggregated = none ↔ l.rulename ∉ names aggregated := by
  induction aggregated with
  | nil => simp [addToEntry, names]
  | cons a aggregated ih =>
      by_cases h : l.rulename = a.rulename
      · simp [addToEntry, names, h]
      · simpa [addToEntry, names, h] using ih

/-- A count that finds its name raises one entry. -/
theorem addToEntry_eq_some {l : LimitT} {aggregated aggregated' : List LimitT}
    (h : addToEntry l aggregated = some aggregated') :
    ∃ a e b, aggregated = a ++ e :: b ∧ l.rulename = e.rulename ∧
      aggregated' = a ++ { e with count := e.count + l.count } :: b := by
  induction aggregated generalizing aggregated' with
  | nil => cases h
  | cons x aggregated ih =>
      unfold addToEntry at h
      split_ifs at h with hname
      · cases h
        exact ⟨[], x, aggregated, rfl, hname, rfl⟩
      · obtain ⟨rest, hrest, rfl⟩ := Option.map_eq_some_iff.mp h
        obtain ⟨a, e, b, rfl, hname, rfl⟩ := ih hrest
        exact ⟨x :: a, e, b, rfl, hname, rfl⟩

section Postprocess
variable (aggregated limit : List LimitT)

/-- One turn of the outer loop. -/
theorem postprocess_entry (l : LimitT) :
    ∃ aggregated' l', postprocessLimits aggregated (l :: limit) =
        ((postprocessLimits aggregated' limit).1, l' :: (postprocessLimits aggregated' limit).2) ∧
      (l'.rulename, l'.count) = (l.rulename, l.count) ∧
      names aggregated' =
        (if l.rulename ∈ names aggregated then names aggregated
          else names aggregated ++ [l.rulename]) ∧
      ∀ name, total name aggregated' = total name aggregated + total name [l] := by
  cases hentry : addToEntry l aggregated with
  | none =>
      refine ⟨aggregated ++ [{ l with new := 1 }], { l with new := 1 },
        by simp [postprocessLimits, hentry], rfl, ?_, fun name => ?_⟩
      · rw [if_neg (addToEntry_eq_none.mp hentry)]
        simp [names]
      · rw [total_append, total_singleton, total_singleton]
  | some aggregated' =>
      obtain ⟨a, e, b, rfl, hname, rfl⟩ := addToEntry_eq_some hentry
      refine ⟨a ++ { e with count := e.count + l.count } :: b, l,
        by simp [postprocessLimits, hentry], rfl, ?_, fun name => ?_⟩
      · rw [if_pos (by simp [names, hname])]
        simp [names]
      · rw [total_raise, total_singleton, hname]

/-- The vector of the watcher keeps its names and counts. -/
theorem entries_postprocessLimits_snd :
    entries (postprocessLimits aggregated limit).2 = entries limit := by
  induction limit generalizing aggregated with
  | nil => rfl
  | cons l limit ih =>
      obtain ⟨aggregated', l', hstep, hentry, -⟩ := postprocess_entry aggregated limit l
      rw [hstep, entries, List.map_cons, hentry]
      exact congrArg (List.cons _) (ih aggregated')

theorem mem_names_postprocessLimits (name : Bytes) :
    name ∈ names (postprocessLimits aggregated limit).1 ↔
      name ∈ names aggregated ∨ name ∈ names limit := by
  induction limit generalizing aggregated with
  | nil => simp [postprocessLimits, names]
  | cons l limit ih =>
      obtain ⟨aggregated', l', hstep, -, hnames, -⟩ := postprocess_entry aggregated limit l
      rw [hstep, ih, hnames]
      split_ifs with hmem
      · constructor
        · rintro (h | h)
          · exact .inl h
          · exact .inr (List.mem_cons_of_mem _ h)
        · rintro (h | h)
          · exact .inl h
          · rcases List.mem_cons.mp h with rfl | h
            · exact .inl hmem
            · exact .inr h
      · simp [names, or_assoc]

theorem nodup_postprocessLimits (h : (names aggregated).Nodup) :
    (names (postprocessLimits aggregated limit).1).Nodup := by
  induction limit generalizing aggregated with
  | nil => exact h
  | cons l limit ih =>
      obtain ⟨aggregated', l', hstep, -, hnames, -⟩ := postprocess_entry aggregated limit l
      rw [hstep]
      apply ih
      rw [hnames]
      split_ifs with hmem
      · exact h
      · rw [List.nodup_append_comm]
        simp [hmem, h]

/-- Each tally of the watcher is added to the one of the same name. -/
theorem total_postprocessLimits (name : Bytes) :
    total name (postprocessLimits aggregated limit).1 =
      total name aggregated + total name limit := by
  induction limit generalizing aggregated with
  | nil => simp [postprocessLimits]
  | cons l limit ih =>
      obtain ⟨aggregated', l', hstep, -, -, htotal⟩ := postprocess_entry aggregated limit l
      rw [hstep, ih, htotal, add_assoc, ← total_append]
      rfl

end Postprocess

end NetdataPlugins.LimitVectors
