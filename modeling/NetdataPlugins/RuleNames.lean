import Mathlib.Data.List.DropRight
import NetdataPlugins.LimitVectors

/-!
# One entry for each rule

The record of a directory lives as long as the daemon, and lines, postprocessing
and clears come in any order. Each rule name should have one entry in the vector
of its limit. `update_limit` looks at all entries but remembers only what it
made of the last one, so a rule that is hit again after another rule gets a
second entry.
-/
namespace NetdataPlugins.RuleNames
open MemoryBlock CString Smtp KeyedTally LimitVectors

/-- A call for the record of one directory. Other directories may have added
anything to the shared statistics before it is postprocessed. -/
inductive Op where
  | line (junk : ℤ) (text : Bytes)
  | postprocess (aggregated : Aggregated)
  | clear

def step (data : SmtpStatistics) : Op → SmtpStatistics
  | .line junk text => processSmtp junk text data
  | .postprocess aggregated => (postprocessData data aggregated).1
  | .clear => clearSmtpData data

def after (ops : List Op) : SmtpStatistics := ops.foldl step smtpDataInit

/-- The rule for which a call counts, in one limit. -/
def key (l : Limit) : Op → Option Bytes
  | .line _ text => (denied text).bind fun d => if d.1 = l then some d.2 else none
  | _ => none

/-- The rules of the lines denied for a limit, in order. -/
def keys (l : Limit) (ops : List Op) : List Bytes := ops.filterMap (key l)

def isClear : Op → Bool
  | .clear => true
  | _ => false

/-- The calls after the last clear. -/
def sinceClear (ops : List Op) : List Op := ops.rtakeWhile fun op => !isClear op

/-- Every name has one entry, the entries are the rules ever hit, and each count
is the number of hits since the last clear. -/
def Represents (data : SmtpStatistics) (ops : List Op) : Prop :=
  ∀ l, (names (data.ssv l)).Nodup ∧
    (data.ssv l).length = (keys l ops).toFinset.card ∧
    ∀ e ∈ data.ssv l, e.count = (keys l (sinceClear ops)).count e.rulename

/-! ### One call -/

theorem after_concat (ops : List Op) (op : Op) : after (ops ++ [op]) = step (after ops) op := by
  simp [after]

theorem keys_concat (l : Limit) (ops : List Op) (op : Op) :
    keys l (ops ++ [op]) = keys l ops ++ (key l op).toList := by
  cases hkey : key l op <;> simp [keys, hkey]

theorem names_step (l : Limit) (data : SmtpStatistics) (op : Op) :
    names ((step data op).ssv l) =
      match key l op with
      | some name => appendKey (names (data.ssv l)) name
      | none => names (data.ssv l) := by
  cases op with
  | line junk text =>
      rcases processSmtp_ssv junk text data with ⟨hnone, hssv⟩ | ⟨k, rulename, hsome, hssv⟩
      · simp [step, key, hssv, hnone]
      · by_cases hl : l = k
        · subst hl
          simp [step, key, hssv, hsome, names_updateLimit]
        · simp [step, key, hssv, hsome, Function.update_of_ne hl, Ne.symm hl]
  | postprocess aggregated =>
      have := entries_postprocessLimits_snd (aggregated.limits l) (data.ssv l)
      simp only [key, ← entries_fst]
      exact congrArg (List.map Prod.fst) this
  | clear => exact names_clearLimits (data.ssv l)

theorem total_step (l : Limit) (name : Bytes) (data : SmtpStatistics) {op : Op}
    (h : isClear op = false) :
    total name ((step data op).ssv l) =
      total name (data.ssv l) + ((key l op).toList.count name : ℕ) := by
  cases op with
  | line junk text =>
      rw [step, total_processSmtp, hits]
      cases hdenied : denied text with
      | none => simp [key, hdenied]
      | some d =>
          obtain ⟨k, rule⟩ := d
          by_cases hk : k = l
          · by_cases hname : rule = name <;> simp [key, hdenied, hk, hname]
          · simp [key, hdenied, hk]
  | postprocess aggregated =>
      have := entries_postprocessLimits_snd (aggregated.limits l) (data.ssv l)
      simp [key, step, postprocessData, total, this]
  | clear => cases h

/-! ### Runs -/

/-- The names are the rules hit so far, without immediate repetitions. -/
theorem names_after (l : Limit) (ops : List Op) :
    names ((after ops).ssv l) = collapse (keys l ops) := by
  induction ops using List.reverseRecOn with
  | nil => rfl
  | append_singleton ops op ih =>
      rw [after_concat, names_step, keys_concat, ih]
      cases key l op with
      | none => simp
      | some name => exact (collapse_concat _ _).symm

theorem total_after (l : Limit) (name : Bytes) (ops : List Op) :
    total name ((after ops).ssv l) = ((keys l (sinceClear ops)).count name : ℕ) := by
  induction ops using List.reverseRecOn with
  | nil => rfl
  | append_singleton ops op ih =>
      rw [after_concat, sinceClear]
      cases hclear : isClear op with
      | true =>
          rw [List.rtakeWhile_concat_neg _ _ _ (by simp [hclear])]
          cases op with
          | clear => exact total_clearLimits name _
          | line junk text => cases hclear
          | postprocess aggregated => cases hclear
      | false =>
          rw [List.rtakeWhile_concat_pos _ _ _ (by simp [hclear]), total_step l name _ hclear, ih,
            keys_concat, List.count_append, Nat.cast_add]
          rfl

theorem represents_iff (ops : List Op) :
    Represents (after ops) ops ↔ ∀ l, NoReturn (keys l ops) := by
  have hnodup (l : Limit) : (names ((after ops).ssv l)).Nodup ↔ NoReturn (keys l ops) := by
    rw [names_after, nodup_collapse_iff]
  constructor
  · intro h l
    exact (hnodup l).mp (h l).1
  · intro h l
    have hnames := (hnodup l).mpr (h l)
    refine ⟨hnames, ?_, fun e he => ?_⟩
    · have hset : (names ((after ops).ssv l)).toFinset = (keys l ops).toFinset := by
        ext name
        simp [names_after, mem_collapse]
      rw [← hset, List.toFinset_card_of_nodup hnames, names, List.length_map]
    · have hmem : (e.rulename, e.count) ∈ entries ((after ops).ssv l) :=
        List.mem_map_of_mem he
      rw [← total_after, total, tally_of_nodup (by rwa [entries_fst]) hmem]

/-- In every state of a run each rule has one entry exactly when, in the lines
denied for a limit, no rule comes back after another one. -/
theorem run_represents_iff (ops : List Op) :
    (∀ earlier, earlier <+: ops → Represents (after earlier) earlier) ↔
      ∀ l, NoReturn (keys l ops) := by
  constructor
  · intro h
    exact (represents_iff ops).mp (h ops (List.prefix_refl ops))
  · intro h earlier hearlier
    apply (represents_iff earlier).mpr
    intro l a b hab
    exact h l a b (hab.trans (hearlier.sublist.filterMap (key l)))

/-- Two rules that take turns. -/
def alternating : List Op :=
  [.line 0 (lit "tcpserver: deny 1 (MAXLOAD:a)"), .line 0 (lit "tcpserver: deny 2 (MAXLOAD:b)"),
    .line 0 (lit "tcpserver: deny 3 (MAXLOAD:a)")]

theorem alternating_two_entries :
    names ((after alternating).ssv .maxload) =
      [lit "MAXLOAD:a", lit "MAXLOAD:b", lit "MAXLOAD:a"] ∧
    ¬ Represents (after alternating) alternating := by
  have hnames : names ((after alternating).ssv .maxload) =
      [lit "MAXLOAD:a", lit "MAXLOAD:b", lit "MAXLOAD:a"] := by decide +kernel
  refine ⟨hnames, fun h => ?_⟩
  have hnodup := (h .maxload).1
  rw [hnames] at hnodup
  exact absurd hnodup (by decide)

end NetdataPlugins.RuleNames
