import NetdataPlugins.DimensionIds
import NetdataPlugins.PluginText
import NetdataPlugins.QmailAudience

/-!
# The text of qmail.plugin

The rules of denied connections are the only text from the logs that is printed.
They never have a line feed, so whatever the logs hold, no more lines come out
than commands are printed; and if the rules are words, the text reads back.
-/
namespace NetdataPlugins.QmailLoop
open MemoryBlock CString Netdata Timer FileWatch IndexedLoop LogWatch Runs Smtp Send Queue
  PluginLoop LimitVectors DimensionIds PrintedLines PrintedText
open QmailPlugin (Data dirData)
open LogDirectory (DirEntry)
open QmailCharts (UsesSmtp)

variable {N : Bytes → Prop}

/-! ### The charts of a watcher -/

theorem shows_printHdr {name : Bytes} (hname : Inert name) (data : Data) :
    ∀ c ∈ data.printHdr name, Shows N c := by
  have htitle (text : String) (htext : Quotable (lit text)) : Quotable (lit text ++ name) :=
    htext.append hname.quotable
  cases data with
  | send data =>
      simp only [QmailPlugin.Data.printHdr, printSendHdr, List.forall_mem_cons]
      refine ⟨shows_ndChart hname (by decide) (htitle _ (by decide)) _, ?_, ?_,
        shows_ndChart hname (by decide) (htitle _ (by decide)) _, ?_, ?_, ?_, by simp⟩
      all_goals exact shows_of_readable (by decide)
  | smtp data =>
      refine shows_header ?_ (by decide : ∀ c ∈ (printSmtpHeader []).filter fun c =>
        (lineText c).isSome, ∀ t ∈ fields c, Readable t)
      change ∀ c ∈ [_, _, _, _, _, _], _
      simp only [List.forall_mem_cons]
      refine ⟨?_, ?_, ?_, ?_, ?_, ?_, by simp⟩
      all_goals exact shows_ndChart hname (by decide) (htitle _ (by decide)) _
  | queue data =>
      exact fun c hc => shows_of_readable
        ((by decide : ∀ c ∈ printQueueHdr, ∀ t ∈ fields c, Readable t) c hc)

theorem shows_print {name : Bytes} (hname : Inert name) (data : Data) (time : ℕ) :
    ∀ c ∈ data.print name time, Shows N c := by
  have hstart (id : String) (hid : Inert (lit id)) :
      Shows N (ndBeginTime qmail (some name) (some (lit id)) time) :=
    shows_ndBeginTime hname ⟨by decide, hid⟩ time
  cases data with
  | send data =>
      refine List.forall_mem_append.mpr ⟨shows_fixedBlock (hstart "" (by decide)) ?_ rfl,
        shows_fixedBlock (hstart "delivery" (by decide)) ?_ rfl⟩
      all_goals
        simp only [List.map_cons, List.map_nil]
        decide
  | smtp data =>
      simp only [QmailPlugin.Data.print, printSmtpData, List.forall_mem_append]
      refine ⟨⟨⟨⟨⟨shows_fixedBlock (hstart "" (by decide)) ?_ rfl,
        shows_fixedBlock (hstart "status" (by decide)) ?_ rfl⟩,
        shows_fixedBlock (hstart "end_status" (by decide)) ?_ rfl⟩,
        shows_fixedBlock (hstart "smtp_type" (by decide)) ?_ rfl⟩,
        shows_fixedBlock (hstart "tls" (by decide)) ?_ rfl⟩,
        shows_fixedBlock (hstart "queue_err" (by decide)) ?_ rfl⟩
      all_goals
        simp only [List.map_cons, List.map_nil]
        decide
  | queue data =>
      refine shows_fixedBlock ?_ (by decide : ∀ id ∈ [lit "mess", lit "todo"], _) rfl
      have hqueue : Readable (.bare (lit "qmail.queue")) := by decide
      apply shows_of_readable
      change ∀ t ∈ fields (.begin (lit "qmail.queue") (if time > 10000 then some time else none)), _
      split_ifs
      · simp only [fields, List.forall_mem_cons]
        exact ⟨by decide, hqueue, readable_decimal _, by simp⟩
      · decide

/-! ### The shared charts -/

/-- The names of the rules are of this kind. -/
def Named (N : Bytes → Prop) (limits : SmtpStatisticsVector) : Prop :=
  ∀ l, ∀ name ∈ names (limits l), N name

theorem shows_ratelimitsppPrint (r : RatelimitsppStatistics) (time : ℕ) :
    ∀ c ∈ ratelimitsppPrint r time, Shows N c :=
  shows_fixedBlock (shows_ndBeginTime (by decide) (by decide) time)
    (by decide : ∀ id ∈ [lit "conn_timeout", lit "error", lit "ratelimited"], _) rfl

theorem shows_limitBegin (l : Limit) (time : ℕ) :
    Shows N (ndBeginTime qmail (some (lit "limit")) (some (limitName l)) time) :=
  shows_ndBeginTime (by decide) (by cases l <;> decide) time

theorem shows_printNewdim (l : Limit) (time : ℕ) {e : LimitT} (he : N e.rulename) :
    ∀ c ∈ printNewdim (limitName l) time e, Shows N c := by
  simp only [printNewdim, List.forall_mem_append, List.forall_mem_cons]
  refine ⟨⟨?_, shows_ndDimension he, by simp⟩, shows_block (shows_limitBegin l time) ?_⟩
  · exact shows_ndChart (by decide) (by cases l <;> decide) (by cases l <;> decide) _
  · exact List.forall_mem_singleton.mpr (.inr he)

theorem shows_tcpserverlimitsPrint {limits : SmtpStatisticsVector} (h : Named N limits)
    (time : ℕ) : ∀ c ∈ (tcpserverlimitsPrint limits time).2, Shows N c := by
  intro c hc
  obtain ⟨l, -, hc⟩ := List.mem_flatMap.mp hc
  have hnames (e : LimitT) (he : e ∈ limits l) : N e.rulename :=
    h l e.rulename (List.mem_map_of_mem he)
  rw [printLimits_snd] at hc
  rcases List.mem_append.mp hc with hknown | hnew
  · split_ifs at hknown
    · refine shows_block (shows_limitBegin l time) (fun r hr => .inr ?_) c hknown
      obtain ⟨e, he, hr⟩ := List.mem_filterMap.mp hr
      split_ifs at hr
      cases hr
      exact hnames e he
    · cases hknown
  · obtain ⟨e, he, hc⟩ := List.mem_flatMap.mp hnew
    exact shows_printNewdim l time (hnames e (List.mem_of_mem_filter he)) c hc

theorem Named.postprocess {data : SmtpStatistics} {aggregated : Aggregated}
    (hdata : Named N data.ssv) (hshared : Named N aggregated.limits) :
    Named N (postprocessData data aggregated).1.ssv ∧
      Named N (postprocessData data aggregated).2.limits := by
  refine ⟨fun l name hname => hdata l name ?_, fun l name hname => ?_⟩
  · have hown : names ((postprocessData data aggregated).1.ssv l) = names (data.ssv l) := by
      rw [← entries_fst, ← entries_fst]
      exact congrArg (List.map Prod.fst)
        (entries_postprocessLimits_snd (aggregated.limits l) (data.ssv l))
    exact hown ▸ hname
  · exact ((mem_names_postprocessLimits _ _ name).mp hname).elim (hshared l name) (hdata l name)

theorem Named.printed {limits : SmtpStatisticsVector} (h : Named N limits) (time : ℕ) :
    Named N (tcpserverlimitsClear (tcpserverlimitsPrint limits time).1) := by
  intro l name hname
  have hnames : names ((tcpserverlimitsPrint limits time).1 l) = names (limits l) := by
    simp [tcpserverlimitsPrint_fst, names, Function.comp_def]
  rw [tcpserverlimitsClear, names_clearLimits, hnames] at hname
  exact h l name hname

/-! ### Rules -/

/-- A name that a line can bring is of this kind. -/
def Brings (N : Bytes → Prop) (line : Bytes) : Prop :=
  ∀ l name, denied (cstr line) = some (l, name) → N name

theorem mem_of_strstr {c : UInt8} {s text r : Bytes} (h : strstr s text = some r) (hc : c ∈ r) :
    c ∈ s := by
  induction s with
  | nil =>
      simp only [strstr, Option.ite_none_right_eq_some, Option.some.injEq] at h
      exact h.2 ▸ hc
  | cons d s ih =>
      rw [strstr] at h
      split_ifs at h
      · cases h
        exact hc
      · exact List.mem_cons_of_mem d (ih h)

/-- The name of a rule has the bytes of the line, up to a replaced dot or an empty
rule. -/
theorem lineFeed_notMem_denied {line name : Bytes} {l : Limit} (h : lineFeed ∉ line)
    (hdenied : denied line = some (l, name)) : lineFeed ∉ name := by
  obtain ⟨rulename, hrule, -, rfl⟩ := denied_eq_some.mp hdenied
  have hpart : lineFeed ∉ rulename := by
    unfold ruleText at hrule
    split_ifs at hrule
    simp only [Option.bind_eq_bind, Option.bind_eq_some_iff] at hrule
    obtain ⟨ptr, hptr, r, hr, hrule⟩ := hrule
    split_ifs at hrule
    cases hrule
    exact fun hmem => h (mem_of_strstr hptr (mem_of_strstr hr (List.mem_of_mem_tail hmem)))
  have hset : lineFeed ∉ setRulename 255 rulename := by
    rw [setRulename_eq, List.mem_map]
    rintro ⟨c, hc, heq⟩
    split_ifs at heq
    · exact absurd heq (by decide)
    · subst heq
      exact hpart (List.mem_of_mem_take (List.takeWhile_subset _ hc))
  rw [ruleKey]
  split_ifs
  · decide
  · exact hset

theorem word_denied {line name : Bytes} {l : Limit}
    (h : ∀ rulename, ruleText line = some rulename → Unbroken (rulePart rulename))
    (hdenied : denied line = some (l, name)) : Word name := by
  obtain ⟨rulename, hrule, -, rfl⟩ := denied_eq_some.mp hdenied
  exact (word_ruleKey rulename).mpr (h rulename hrule)

/-! ### Runs -/

/-- What a record keeps; the queue prints no name of a directory. -/
def Kept (N : Bytes → Prop) (name : Bytes) : Data → Prop
  | .send _ => Inert name
  | .smtp data => Inert name ∧ UsesSmtp name ∧ Named N data.ssv
  | .queue _ => name = []

theorem Kept.inert {name : Bytes} {data : Data} (h : Kept N name data) : Inert name := by
  cases data with
  | send data => exact h
  | smtp data => exact h.1
  | queue data => exact h ▸ List.forall_mem_nil _

/-- The ids are what the lines of the smtp logs bring. -/
def writing (N : Bytes → Prop) : Writing qmailPlugin N fun name line =>
    UsesSmtp name → lineFeed ∉ line → Brings N line where
  Kept := Kept N
  Shared shared := Named N shared.aggregated.limits
  printHdr name data h := shows_printHdr h.inert data
  preamble c hc := shows_of_readable
    ((by decide : ∀ c ∈ ratelimitsppPrintHdr, ∀ t ∈ fields c, Readable t) c hc)
  process x mem line name data data' hline hfeed hgood hprocess h := by
    obtain rfl := Option.some.inj hprocess
    cases data with
    | send data => exact h
    | queue data => exact h
    | smtp data =>
        obtain ⟨hname, hsmtp, hnamed⟩ := h
        refine ⟨hname, hsmtp, fun l n hn => ?_⟩
        rcases (mem_names_processSmtp x.junk (cstr mem) data l n).mp hn with hold | hnew
        · exact hnamed l n hold
        · rw [hline.cstr_eq] at hnew
          exact hgood hsmtp hfeed l n hnew
  measure x name data h := by cases data <;> exact h
  postprocess shared name data hshared h := by
    cases data with
    | send data => exact ⟨h, hshared⟩
    | queue data => exact ⟨h, hshared⟩
    | smtp data =>
        obtain ⟨hdata, hlimits⟩ := Named.postprocess h.2.2 hshared
        exact ⟨⟨h.1, h.2.1, hdata⟩, hlimits⟩
  print name data time h := ⟨h, shows_print h.inert data time⟩
  clear name data h := by
    cases data with
    | send data => exact h
    | queue data => exact h
    | smtp data =>
        exact ⟨h.1, h.2.1, fun l n hn => h.2.2 l n (names_clearLimits (data.ssv l) ▸ hn)⟩
  epilogue shared reading h := ⟨h.printed _, List.forall_mem_append.mpr
    ⟨shows_ratelimitsppPrint _ _, shows_tcpserverlimitsPrint h _⟩⟩

section Start
variable {bufsiz : ℕ} {logs : Key → LogFile} {entries : List DirEntry} {hasQueue : Bool}
  {readings : ℕ → Timespec} {ratelimitsppTime : Timespec}

theorem found_kept (hnames : ∀ e ∈ entries, Inert e.name) {w : Watch bufsiz Data}
    (hw : w ∈ found bufsiz logs entries hasQueue) : Kept N (w.name qmailPlugin) w.data := by
  rcases List.mem_append.mp hw with hw | hw
  · obtain ⟨e, he, data, hdata, hprep⟩ := mem_detectLogDirs hw
    have hname : w.name qmailPlugin = e.name := hprep.dirName
    rw [hname, hprep.data]
    unfold dirData at hdata
    split_ifs at hdata with hsend hsmtp
    · cases hdata
      exact hnames e he
    · cases hdata
      exact ⟨hnames e he, ⟨Bool.eq_false_iff.mpr hsend, hsmtp⟩,
        fun _ _ h => absurd h List.not_mem_nil⟩
  · unfold appendQueueWatcher at hw
    split_ifs at hw
    · obtain rfl := List.mem_singleton.mp hw
      rfl
    · cases hw

/-- In every run, whatever the logs hold, each command is one line; and if the
rules of the denied connections in the smtp logs have no blank and no quote, the
text reads back. -/
theorem qmailText_lines (hn : 0 < bufsiz) (hnames : ∀ e ∈ entries, Inert e.name)
    {steps : List (Step Input)} {s : System bufsiz Shared Data}
    (hr : run (exec qmailPlugin) (main bufsiz logs entries hasQueue readings ratelimitsppTime)
      steps = some s) :
    outputLines (outputText s.stdout) = s.stdout.map lineOf ∧
    ((∀ w ∈ s.watches, UsesSmtp w.watcher.watch.dirName → ∀ line ∈ seen bufsiz w.bytes,
        ∀ rulename, ruleText (cstr line) = some rulename → Unbroken (rulePart rulename)) →
      ReadsBack s.stdout) := by
  have hfound {N : Bytes → Prop} : ∀ w ∈ found bufsiz logs entries hasQueue,
      w.watcher.consumed = [] ∧ Fresh w.watcher.watch ∧ Kept N (w.name qmailPlugin) w.data := by
    intro w hw
    obtain ⟨hconsumed, hfresh, -⟩ := found_fresh hw
    exact ⟨hconsumed, hfresh, found_kept hnames hw⟩
  have hnone {N : Bytes → Prop} : (writing N).Shared ⟨⟨.zero, fun _ => []⟩, ratelimitsppTime⟩ :=
    fun _ _ h => absurd h List.not_mem_nil
  have hfeed {line name : Bytes} {l : Limit} (hline : lineFeed ∉ line)
      (h : denied (cstr line) = some (l, name)) : lineFeed ∉ name :=
    lineFeed_notMem_denied (fun hmem => hline (List.takeWhile_subset _ hmem)) h
  refine ⟨lines_of_shows (fun _ h => h) ((writing fun id => lineFeed ∉ id).run_shows hn hnone
    hfound hr fun w _ line _ _ hline l name h => hfeed hline h), fun hrules => ?_⟩
  refine readsBack_of_shows (fun _ h => h) ((writing fun id => Word id ∧ lineFeed ∉ id).run_shows
    hn hnone hfound hr fun w hw line hline hsmtp hfree l name h => ?_)
  exact ⟨word_denied (hrules w hw hsmtp line hline) h, hfeed hfree h⟩

end Start

theorem qmailText_lines_tick :
    ∃ s, run (exec qmailPlugin) oneDirectoryStart deniedTick = some s ∧
      outputLines (outputText s.stdout) = s.stdout.map lineOf ∧ ReadsBack s.stdout := by
  have hrun : (run (exec qmailPlugin) oneDirectoryStart deniedTick).map
      (fun s => s.watches.map fun w => seen 8192 w.bytes) =
        some [[lit "tcpserver: deny 1 (MAXLOAD:a)"]] := by
    decide +kernel
  obtain ⟨s, hs, hseen⟩ := Option.map_eq_some_iff.mp hrun
  obtain ⟨houtput, hreads⟩ := qmailText_lines (by decide) (by decide) hs
  refine ⟨s, hs, houtput, hreads fun w hw _ line hline rulename hrule => ?_⟩
  have hlines : seen 8192 w.bytes = [lit "tcpserver: deny 1 (MAXLOAD:a)"] :=
    List.mem_singleton.mp (hseen ▸ List.mem_map_of_mem hw)
  rw [hlines, List.mem_singleton] at hline
  subst hline
  have hname : ruleText (cstr (lit "tcpserver: deny 1 (MAXLOAD:a)")) = some (lit "MAXLOAD:a)") := by
    decide +kernel
  rw [hname, Option.some.injEq] at hrule
  subst hrule
  decide +kernel

end NetdataPlugins.QmailLoop
