import NetdataPlugins.PluginLoop
import NetdataPlugins.PrintedText
import NetdataPlugins.Runs

/-!
# What a plugin writes, byte by byte

The words of the output are fixed, or ids that come from the logs. A `Writing`
says what a record keeps so that its ids are of one kind, as long as the lines of
the logs are good ones for their watchers. Then in every run all commands show such
ids only: each of them is one line if no id has a line feed, and the text reads
back if the ids are words.
-/
namespace NetdataPlugins.PluginLoop
open MemoryBlock CString Netdata Timer FileWatch IndexedLoop LogWatch Runs PrintedLines PrintedText

variable {bufsiz : ℕ} {ι γ δ : Type}

/-- The words of the command are readable, or ids of this kind. -/
def Shows (N : Bytes → Prop) (c : Command) : Prop :=
  ∀ t ∈ fields c, Readable t ∨ N t.value

/-- `Good` are the lines that a watcher with this name may read. -/
structure Writing (P : Plugin ι γ δ) (N : Bytes → Prop) (Good : Bytes → Bytes → Prop) where
  /-- For a record, and the name that its watcher prints. -/
  Kept : Bytes → δ → Prop
  Shared : γ → Prop
  printHdr : ∀ name d, Kept name d → ∀ c ∈ P.printHdr name d, Shows N c
  preamble : ∀ c ∈ P.preamble, Shows N c
  process : ∀ x mem line name d d', PointsTo mem line → lineFeed ∉ line → Good name line →
    P.process x mem d = some d' → Kept name d → Kept name d'
  measure : ∀ x name d, Kept name d → Kept name (P.measure x d)
  postprocess : ∀ g name d, Shared g → Kept name d →
    Kept name (P.postprocess g d).1 ∧ Shared (P.postprocess g d).2
  print : ∀ name d time, Kept name d →
    Kept name (P.print name d time).1 ∧ ∀ c ∈ (P.print name d time).2, Shows N c
  clear : ∀ name d, Kept name d → Kept name (P.clear d)
  epilogue : ∀ g reading, Shared g →
    Shared (P.epilogue g reading).1 ∧ ∀ c ∈ (P.epilogue g reading).2, Shows N c

/-- The lines that a watcher has seen are good ones. -/
def SeesGood (P : Plugin ι γ δ) (Good : Bytes → Bytes → Prop) (w : Watch bufsiz δ) : Prop :=
  ∀ line ∈ seen bufsiz w.bytes, Good (w.name P) line

namespace Writing
variable {P : Plugin ι γ δ} {N : Bytes → Prop} {Good : Bytes → Bytes → Prop}
  (W : Writing P N Good)

/-- What a watcher becomes when it reads. -/
structure Onward (w w' : Watch bufsiz δ) : Prop where
  followed : Followed w'
  name_eq : w'.name P = w.name P
  seen : seen bufsiz w.bytes <+: seen bufsiz w'.bytes
  kept : SeesGood P Good w' → W.Kept (w.name P) w.data → W.Kept (w.name P) w'.data

section Watcher
variable {W} {f : LogFile} {a : Answers ι} {w w' : Watch bufsiz δ}

theorem Onward.refl (h : Followed w) : W.Onward w w :=
  ⟨h, rfl, List.prefix_rfl, fun _ hw => hw⟩

theorem Onward.good (h : W.Onward w w') (hgood : SeesGood P Good w') : SeesGood P Good w := by
  intro line hline
  rw [← h.name_eq]
  exact hgood line (h.seen.subset hline)

theorem Onward.kept_name (h : W.Onward w w') (hgood : SeesGood P Good w')
    (hw : W.Kept (w.name P) w.data) : W.Kept (w'.name P) w'.data := by
  rw [h.name_eq]
  exact h.kept hgood hw

theorem processLines {input : ℕ → ι} {mems new : List Bytes} {name : Bytes} {d d' : δ}
    (hlines : List.Forall₂ PointsTo mems new)
    (hnew : ∀ line ∈ new, lineFeed ∉ line ∧ Good name line)
    (hd : W.Kept name d) (h : PluginLoop.processLines P input mems d = some d') :
    W.Kept name d' := by
  induction hlines generalizing input d with
  | nil =>
      cases h
      exact hd
  | @cons mem line mems new hline _ ih =>
      simp only [PluginLoop.processLines, Option.bind_eq_bind, Option.bind_eq_some_iff] at h
      obtain ⟨d₁, h₁, h⟩ := h
      obtain ⟨hfeed, hgood⟩ := hnew line List.mem_cons_self
      exact ih (fun l hl => hnew l (List.mem_cons_of_mem line hl))
        (W.process _ mem line name d d₁ hline hfeed hgood h₁ hd) h

theorem onward_read (h : Followed w) (hr : w.readLogFile P f a = some w') : W.Onward w w' := by
  obtain ⟨hfollowed, mems, new, hnew, hseen, hdata⟩ := readLogFile_followed h hr
  have hname : w'.name P = w.name P := Watch.name_origin P (readLogFile_origin hr).1
  refine ⟨hfollowed, hname, ⟨new, hseen⟩, fun hgood hw => ?_⟩
  refine processLines hnew (fun line hline => ?_) hw hdata
  have hmem : line ∈ seen bufsiz w'.bytes := hseen ▸ List.mem_append_right _ hline
  exact ⟨LineSplit.notMem_of_bounded hmem, hname ▸ hgood line hmem⟩

theorem onward_event {e : InotifyEvent} (h : Followed w)
    (hw : w.processFsEvent P e f a = some w') : W.Onward w w' := by
  rcases processFsEvent_cases hw with ⟨-, rfl⟩ | ⟨-, v, hv, rfl⟩
  · exact .refl h
  · have hread := onward_read (W := W) h hv
    exact ⟨hread.followed.reopenLogFile, hread.name_eq, hread.seen, hread.kept⟩

theorem onward_collect {t : Turn ι} (h : Followed w) (hw : w.collect P f t = some w') :
    W.Onward w w' := by
  unfold Watch.collect at hw
  split at hw
  · exact onward_read h hw
  · cases hw
    exact ⟨h, rfl, List.prefix_rfl, fun _ hkept => W.measure _ _ _ hkept⟩

end Watcher

/-! ### Runs -/

/-- The ids that have been printed, and those that will be. -/
structure Keeps (s : System bufsiz γ δ) : Prop where
  watches : ∀ w ∈ s.watches, W.Kept (w.name P) w.data
  shared : W.Shared s.shared
  shows : ∀ c ∈ s.stdout, Shows N c

/-- While all lines that were seen are good ones, the ids are of the kind. -/
structure Written (s : System bufsiz γ δ) : Prop where
  followed : ∀ w ∈ s.watches, Followed w
  keeps : (∀ w ∈ s.watches, SeesGood P Good w) → W.Keeps s

variable {W} {s s' : System bufsiz γ δ}

theorem Written.event {answers : ℕ → Answers ι} (h : W.Written s)
    (hs : exec P s (.event answers) = some s') : W.Written s' := by
  obtain ⟨timer, e, queue, ws, -, -, hws, rfl⟩ := event_cases hs
  obtain ⟨hlen, hall⟩ := forEach_getElem? hws
  have honward (i : ℕ) (w w' : Watch bufsiz δ) (hw : s.watches[i]? = some w)
      (hw' : ws[i]? = some w') : W.Onward w w' := by
    obtain ⟨v, hv, hget⟩ := hall i w hw
    rw [hget, Option.some.injEq] at hw'
    exact hw' ▸ onward_event (h.followed w (List.mem_of_getElem? hw)) hv
  have hback : ∀ w' ∈ ws, ∃ w ∈ s.watches, W.Onward w w' := by
    intro w' hw'
    obtain ⟨i, hi, rfl⟩ := List.getElem_of_mem hw'
    have hi' : i < s.watches.length := hlen ▸ hi
    exact ⟨s.watches[i], List.getElem_mem hi', honward i _ _ (List.getElem?_eq_getElem hi')
      (List.getElem?_eq_getElem hi)⟩
  refine ⟨fun w' hw' => ?_, fun hgood => ?_⟩
  · obtain ⟨w, -, hw⟩ := hback w' hw'
    exact hw.followed
  · have hkeeps := h.keeps fun w hw => by
      obtain ⟨i, hi, rfl⟩ := List.getElem_of_mem hw
      obtain ⟨v, -, hget⟩ := hall i _ (List.getElem?_eq_getElem hi)
      exact (honward i _ v (List.getElem?_eq_getElem hi) hget).good
        (hgood v (List.mem_of_getElem? hget))
    refine ⟨fun w' hw' => ?_, hkeeps.shared, hkeeps.shows⟩
    obtain ⟨w, hmem, hw⟩ := hback w' hw'
    exact hw.kept_name (hgood w' hw') (hkeeps.watches w hmem)

theorem Written.turn {t : Turn ι} (h : W.Written s) (hs : exec P s (.turn t) = some s') :
    W.Written s' := by
  obtain ⟨i, w, v, -, hw, hv, rfl⟩ := turn_cases hs
  have hmem := List.mem_of_getElem? hw
  have honward : W.Onward w v := onward_collect (h.followed w hmem) hv
  obtain ⟨post, data, shared, time, out, hpost, -, hprint, hr⟩ := report_cases (P := P) s i v t
  -- Whether the print fails or not, the watcher has seen what `v` has seen.
  have hfollowed (d : δ) : ∀ u ∈ s.watches.set i { v with time := time.2, data := d },
      Followed u := by
    intro u hu
    rcases List.mem_or_eq_of_mem_set hu with hu | rfl
    · exact h.followed u hu
    · exact honward.followed
  have hbefore (d : δ) (hgood : ∀ u ∈ s.watches.set i { v with time := time.2, data := d },
      SeesGood P Good u) : SeesGood P Good v ∧ ∀ u ∈ s.watches, SeesGood P Good u := by
    have hi := (List.getElem?_eq_some_iff.mp hw).1
    have hnew : SeesGood P Good { v with time := time.2, data := d } :=
      hgood _ (List.mem_set hi _)
    refine ⟨hnew, fun u hu => ?_⟩
    obtain ⟨j, hj, rfl⟩ := List.getElem_of_mem hu
    rcases eq_or_ne i j with rfl | hne
    · have hsame : s.watches[i] = w := (List.getElem?_eq_some_iff.mp hw).2
      exact hsame ▸ honward.good hnew
    · refine hgood _ (List.mem_of_getElem? (i := j) ?_)
      rw [List.getElem?_set_ne hne, List.getElem?_eq_getElem hj]
  have hprinted (hgood : SeesGood P Good v) (hall : ∀ u ∈ s.watches, SeesGood P Good u) :
      W.Keeps s ∧ W.Kept (v.name P) data ∧ W.Shared shared ∧ ∀ c ∈ out, Shows N c := by
    have hkeeps := h.keeps hall
    have hkept := honward.kept_name hgood (hkeeps.watches w hmem)
    obtain ⟨hp, hshared⟩ := W.postprocess s.shared _ v.data hkeeps.shared hkept
    rw [hpost] at hp hshared
    have hout := W.print _ post time.1 hp
    rw [hprint] at hout
    exact ⟨hkeeps, hout.1, hshared, hout.2⟩
  have hwatches (d : δ) (hd : W.Kept (v.name P) d) (hkeeps : W.Keeps s) :
      ∀ u ∈ s.watches.set i { v with time := time.2, data := d }, W.Kept (u.name P) u.data := by
    intro u hu
    rcases List.mem_or_eq_of_mem_set hu with hu | rfl
    · exact hkeeps.watches u hu
    · exact hd
  rcases hr with ⟨-, hr⟩ | ⟨n, -, hr⟩
  all_goals rw [hr]
  · refine ⟨hfollowed _, fun hgood => ?_⟩
    obtain ⟨hv, hall⟩ := hbefore _ hgood
    obtain ⟨hkeeps, hdata, hshared, hout⟩ := hprinted hv hall
    exact ⟨hwatches _ (W.clear _ _ hdata) hkeeps, hshared,
      List.forall_mem_append.mpr ⟨hkeeps.shows, hout⟩⟩
  · refine ⟨hfollowed _, fun hgood => ?_⟩
    obtain ⟨hv, hall⟩ := hbefore _ hgood
    obtain ⟨hkeeps, hdata, hshared, hout⟩ := hprinted hv hall
    exact ⟨hwatches _ hdata hkeeps, hshared, List.forall_mem_append.mpr
      ⟨hkeeps.shows, fun c hc => hout c (List.mem_of_mem_take hc)⟩⟩

theorem Written.finish {reading : Timespec} {failed : Option ℕ} (h : W.Written s)
    (hs : exec P s (.finish reading failed) = some s') : W.Written s' := by
  obtain ⟨-, rfl⟩ := finish_cases hs
  obtain ⟨shared, out, hep, hr⟩ := conclude_cases (P := P) s reading failed
  rcases hr with ⟨-, hr⟩ | ⟨n, -, hr⟩
  all_goals
    rw [hr]
    refine ⟨h.followed, fun hgood => ?_⟩
    have hkeeps := h.keeps hgood
    have hout := W.epilogue s.shared reading hkeeps.shared
    rw [hep] at hout
  · exact ⟨hkeeps.watches, hout.1, List.forall_mem_append.mpr ⟨hkeeps.shows, hout.2⟩⟩
  · exact ⟨hkeeps.watches, hkeeps.shared, List.forall_mem_append.mpr
      ⟨hkeeps.shows, fun c hc => hout.2 c (List.mem_of_mem_take hc)⟩⟩

theorem exec_written (s : System bufsiz γ δ) (a : Step ι) (s' : System bufsiz γ δ)
    (h : W.Written s) (hs : exec P s a = some s') : W.Written s' := by
  have hsame (u : System bufsiz γ δ) (hw : u.watches = s.watches) (hshared : u.shared = s.shared)
      (hout : u.stdout = s.stdout) : W.Written u := by
    refine ⟨hw ▸ h.followed, fun hgood => ?_⟩
    have hkeeps := h.keeps (hw ▸ hgood)
    exact ⟨hw ▸ hkeeps.watches, hshared ▸ hkeeps.shared, hout ▸ hkeeps.shows⟩
  cases a with
  | append key bytes =>
      cases hs
      exact hsame _ rfl rfl rfl
  | rotate key =>
      cases hs
      exact hsame _ rfl rfl rfl
  | poll signal fsEvent timer =>
      obtain ⟨-, -, run, phase, rfl, -⟩ := poll_cases hs
      exact hsame _ rfl rfl rfl
  | event answers => exact h.event hs
  | drained =>
      obtain ⟨timer, -, -, rfl⟩ := drained_cases hs
      exact hsame _ rfl rfl rfl
  | turn t => exact h.turn hs
  | finish reading failed => exact h.finish hs

section Start
variable {logs : Key → LogFile} {found : List (Watch bufsiz δ)} {shared : γ}
  {readings : ℕ → Timespec}

theorem start_written (hn : 0 < bufsiz) (hshared : W.Shared shared)
    (hfound : ∀ w ∈ found, w.watcher.consumed = [] ∧ Fresh w.watcher.watch ∧
      W.Kept (w.name P) w.data) : W.Written (start P logs found shared readings) := by
  have hwatches : ∀ w ∈ (start P logs found shared readings).watches, ∃ v ∈ found,
      ∃ time, w = { v with time := time } := by
    intro w hw
    obtain ⟨i, hi, rfl⟩ := List.mem_mapIdx.mp hw
    exact ⟨found[i], List.getElem_mem hi, readings i, rfl⟩
  refine ⟨fun w hw => ?_, fun _ => ⟨fun w hw => ?_, hshared, ?_⟩⟩
  · obtain ⟨v, hv, time, rfl⟩ := hwatches w hw
    obtain ⟨hconsumed, hfresh, -⟩ := hfound v hv
    exact .of_fresh hn hconsumed hfresh
  · obtain ⟨v, hv, time, rfl⟩ := hwatches w hw
    exact (hfound v hv).2.2
  · refine List.forall_mem_append.mpr ⟨fun c hc => ?_, W.preamble⟩
    obtain ⟨v, hv, hc⟩ := List.mem_flatMap.mp hc
    exact W.printHdr _ _ (hfound v hv).2.2 c hc

/-- In every run, as long as the lines that were seen are good ones, all that is
printed is readable, up to ids of the kind. -/
theorem run_shows (hn : 0 < bufsiz) (hshared : W.Shared shared)
    (hfound : ∀ w ∈ found, w.watcher.consumed = [] ∧ Fresh w.watcher.watch ∧
      W.Kept (w.name P) w.data) {steps : List (Step ι)}
    (hr : run (exec P) (start P logs found shared readings) steps = some s)
    (hgood : ∀ w ∈ s.watches, SeesGood P Good w) : ∀ c ∈ s.stdout, Shows N c :=
  ((run_preserves exec_written (start_written hn hshared hfound) hr).keeps hgood).shows

end Start
end Writing

/-! ### Lines and words -/

/-- Ids without a line feed leave each command on one line. -/
theorem lines_of_shows {N : Bytes → Prop} (hN : ∀ id, N id → lineFeed ∉ id) {out : List Command}
    (h : ∀ c ∈ out, Shows N c) : outputLines (outputText out) = out.map lineOf :=
  lines_text fun c hc t ht => (h c hc t ht).elim And.right (hN t.value)

/-- Ids that are words leave the text readable. -/
theorem readsBack_of_shows {N : Bytes → Prop} (hN : ∀ id, N id → Word id ∧ lineFeed ∉ id)
    {out : List Command} (h : ∀ c ∈ out, Shows N c) : ReadsBack out := by
  refine readsBack_of_readable fun c hc t ht => (h c hc t ht).elim id fun hid => ?_
  obtain ⟨hword, hfeed⟩ := hN t.value hid
  refine ⟨?_, hfeed⟩
  cases t with
  | bare w => exact hword
  | quoted w => exact hword.mark_notMem

/-! ### What the plugins print -/

/-- A text that may be a part of an id. -/
def Inert (s : Bytes) : Prop := ∀ c ∈ s, isBlank c = false ∧ c ≠ mark ∧ c ≠ lineFeed

/-- A text that may stand between quotes. -/
def Quotable (s : Bytes) : Prop := mark ∉ s ∧ lineFeed ∉ s

instance (s : Bytes) : Decidable (Inert s) := List.decidableBAll _ s

instance (s : Bytes) : Decidable (Quotable s) := inferInstanceAs (Decidable (_ ∧ _))

section Printed
variable {N : Bytes → Prop} {dir type id name title units context : Bytes}
  {family : Option Bytes} {sets : List (Bytes × ℤ)}

theorem Inert.append {a b : Bytes} (ha : Inert a) (hb : Inert b) : Inert (a ++ b) :=
  List.forall_mem_append.mpr ⟨ha, hb⟩

theorem Inert.quotable {s : Bytes} (h : Inert s) : Quotable s :=
  ⟨fun hmem => (h _ hmem).2.1 rfl, fun hmem => (h _ hmem).2.2 rfl⟩

theorem Quotable.append {a b : Bytes} (ha : Quotable a) (hb : Quotable b) :
    Quotable (a ++ b) := by
  simp only [Quotable, List.mem_append, not_or]
  exact ⟨⟨ha.1, hb.1⟩, ha.2, hb.2⟩

theorem Inert.readable {s : Bytes} (h : Inert s) (hne : s ≠ []) : Readable (.bare s) :=
  ⟨⟨hne, fun c hc => ⟨(h c hc).1, (h c hc).2.1⟩⟩, h.quotable.2⟩

theorem readable_decimal (z : ℤ) : Readable (.bare (decimal z)) :=
  ⟨word_decimal z, lineFeed_notMem_decimal z⟩

theorem readable_chartId (hdir : Inert dir) (hfixed : Inert type ∧ Inert id) :
    Readable (.bare (printTypePrefixId type (some dir) (some id))) := by
  have hdot : Inert (lit ".") ∧ Inert (lit "_") := by decide
  refine Inert.readable ((((hfixed.1.append hdot.1).append hdir).append hdot.2).append
    hfixed.2) ?_
  simp [printTypePrefixId, lit]

theorem shows_of_readable {c : Command} (h : ∀ t ∈ fields c, Readable t) : Shows N c :=
  fun t ht => .inl (h t ht)

/-- A header is seen to be readable by its charts and its dimensions. -/
theorem shows_header {hdr : List Command}
    (hcharts : ∀ c ∈ hdr.filter fun c => (lineText c).isNone, Shows N c)
    (hdimensions : ∀ c ∈ hdr.filter fun c => (lineText c).isSome, ∀ t ∈ fields c, Readable t) :
    ∀ c ∈ hdr, Shows N c := by
  intro c hc
  cases hline : (lineText c).isSome with
  | true => exact shows_of_readable (hdimensions c (List.mem_filter.mpr ⟨hc, hline⟩))
  | false => exact hcharts c (List.mem_filter.mpr ⟨hc, by simpa using hline⟩)

theorem shows_ndChart (hdir : Inert dir)
    (hfixed : (Inert type ∧ Inert id) ∧ ∀ s ∈ [name, units, checkNull family, context], Quotable s)
    (htitle : Quotable title) (chartType : ChartType) :
    Shows N (ndChart type (some dir) (some id) (some name) (some title) (some units) family
      (some context) chartType) := by
  obtain ⟨hid, hquoted⟩ := hfixed
  simp only [List.forall_mem_cons] at hquoted
  obtain ⟨hname, hunits, hfamily, hcontext, -⟩ := hquoted
  have htype : Readable (.bare (chartTypeText chartType)) := by cases chartType <;> decide
  apply shows_of_readable
  simp only [ndChart, fields, List.forall_mem_cons]
  exact ⟨by decide, readable_chartId hdir hid, hname, htitle, hunits, hfamily, hcontext, htype,
    by simp⟩

theorem shows_ndBeginTime (hdir : Inert dir) (hfixed : Inert type ∧ Inert id) (time : ℕ) :
    Shows N (ndBeginTime type (some dir) (some id) time) := by
  have hid := readable_chartId hdir hfixed
  apply shows_of_readable
  unfold ndBeginTime
  split_ifs
  · simp only [fields, List.forall_mem_cons]
    exact ⟨by decide, hid, readable_decimal _, by simp⟩
  · simp only [fields, List.forall_mem_cons]
    exact ⟨by decide, hid, by simp⟩

theorem shows_block {start : Command} (hstart : Shows N start)
    (hsets : ∀ r ∈ sets, Readable (.bare r.1) ∨ N r.1) : ∀ c ∈ block start sets, Shows N c := by
  have hset (name : Bytes) (value : ℤ) (h : Readable (.bare name) ∨ N name) :
      Shows N (ndSet name value) := by
    simp only [Shows, ndSet, fields, tokens, List.forall_mem_cons]
    exact ⟨.inl (by decide), h, .inl (by decide), .inl (readable_decimal value), by simp⟩
  have hclose : Shows N ndEnd := shows_of_readable (by decide)
  simp only [block, List.forall_mem_append, List.forall_mem_cons, List.forall_mem_map]
  exact ⟨⟨hstart, fun r hr => hset r.1 r.2 (hsets r hr)⟩, hclose, by simp⟩

/-- A block that has fixed dimensions. -/
theorem shows_fixedBlock {start : Command} (hstart : Shows N start) {ids : List Bytes}
    (hids : ∀ id ∈ ids, Readable (.bare id)) (hsets : sets.map Prod.fst = ids) :
    ∀ c ∈ block start sets, Shows N c :=
  shows_block hstart fun r hr => .inl (hids r.1 (hsets ▸ List.mem_map_of_mem hr))

/-- A dimension that is called after its id. -/
theorem shows_ndDimension (h : N id) :
    Shows N (ndDimension id (some id) .absolute 1 1 .visible) := by
  simp only [Shows, ndDimension, checkNull, Option.getD_some, fields, tokens,
    List.forall_mem_append, List.forall_mem_cons]
  exact ⟨⟨.inl (by decide), .inr h, .inr h, .inl (by decide), .inl (by decide), .inl (by decide),
    by simp⟩, by simp⟩

end Printed

end NetdataPlugins.PluginLoop
