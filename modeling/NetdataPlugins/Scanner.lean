import NetdataPlugins.Netdata

/-!
# Output of the scannerd statistics (scanner.c)

A scannerd directory has two logs, `details` and `current`, each with a record
and charts of its own. The names of the dimensions stand in tables, since the
headers and the values go through them in the same order.
-/
namespace NetdataPlugins.Scanner
open MemoryBlock CString Netdata

def fractionalConversion : ℤ := 1000000

/-! ### The details log -/

/-- The results `SC` and `CC` of a scan, where a missing one counts too. -/
inductive Bucket where
  | sc0cc0 | sc0cc1 | sc1cc0 | sc1cc1 | cc0 | cc1 | sc0 | sc1 | none
  deriving DecidableEq, Repr

structure ScanDuration where
  value : ℤ
  count : ℤ
  sum : ℤ
  deriving DecidableEq, Repr

structure DetailsStatistics where
  clear : ℤ
  clamdscan : ℤ
  spamTagged : ℤ
  spamRejected : ℤ
  spamDeleted : ℤ
  other : ℤ
  sc0 : ℤ
  sc1 : ℤ
  cc0 : ℤ
  cc1 : ℤ
  scanDuration : Bucket → ScanDuration
  nullField : ℤ
  emptyField : ℤ
  incorrectNumClmns : ℤ

/-- The id and the name of the dimension of a bucket. -/
def durationNames : List (String × String × Bucket) :=
  [("scan_duration_sc_0_cc_0", "SC:0_CC:0", .sc0cc0),
    ("scan_duration_sc_0_cc_1", "SC:0_CC:1", .sc0cc1),
    ("scan_duration_sc_1_cc_0", "SC:1_CC:0", .sc1cc0),
    ("scan_duration_sc_1_cc_1", "SC:1_CC:1", .sc1cc1),
    ("scan_duration_cc_0", "CC:0", .cc0), ("scan_duration_cc_1", "CC:1", .cc1),
    ("scan_duration_sc_0", "SC:0", .sc0), ("scan_duration_sc_1", "SC:1", .sc1),
    ("scan_duration__", "__", .none)]

def scannerd : Bytes := lit "scannerd"

/-- The charts of this file have an empty name. -/
def scannerdChart (name : Bytes) (id title units family context : String) (type : ChartType) :
    Command :=
  ndChart scannerd (some name) (some (lit id)) (some []) (some (lit title)) (some (lit units))
    (some (lit family)) (some (lit context)) type

def dimension (id name : String) (alg : Algorithm) (divisor : ℤ) : Command :=
  ndDimension (lit id) (some (lit name)) alg 1 divisor .visible

def detailsPrintHdr (name : Bytes) : List Command :=
  [scannerdChart name "type" "" "volume" "details" "details.details_type" .stacked,
    dimension "clear" "Clear" .absolute 1, dimension "clamdscan" "Clamdscan" .absolute 1,
    dimension "spam_tagged" "SPAM Tagged" .absolute 1,
    dimension "spam_rejected" "SPAM Rejected" .absolute 1,
    dimension "spam_deleted" "SPAM Deleted" .absolute 1, dimension "other" "Other" .absolute 1,
    scannerdChart name "cached" "Cached results" "percentage" "details" "details.details_sc"
      .stacked,
    dimension "sc_0" "SC:0" .percentageOfAbsoluteRow 1,
    dimension "sc_1" "SC:1" .percentageOfAbsoluteRow 1,
    dimension "cc_0" "CC:0" .percentageOfAbsoluteRow 1,
    dimension "cc_1" "CC:1" .percentageOfAbsoluteRow 1,
    scannerdChart name "duration" "Scan duration" "duration" "details"
      "details.details_scan_duration" .line] ++
  durationNames.map (fun d => dimension d.1 d.2.1 .absolute fractionalConversion) ++
  [scannerdChart name "duration_ratio" "Scan duration ratio" "percentage" "details"
      "details.details_scan_duration_ratio" .stacked] ++
  durationNames.map (fun d => dimension d.1 d.2.1 .percentageOfAbsoluteRow
    fractionalConversion) ++
  [scannerdChart name "incorrect_data_fields" "Incorrect data fields" "volume" "details"
      "details.details_incorrect_data_fields" .line,
    dimension "null_field" "nullDataField" .absolute 1,
    dimension "empty_field" "emptyDataField" .absolute 1,
    dimension "incorrect_#clmns" "incorrect_#clmns" .absolute 1]

def detailsPrint (name : Bytes) (data : DetailsStatistics) (time : ℕ) : List Command :=
  let durations := durationNames.map fun d => (lit d.1, (data.scanDuration d.2.2).value)
  block (ndBeginTime scannerd (some name) (some (lit "type")) time)
    [(lit "clear", data.clear), (lit "clamdscan", data.clamdscan),
      (lit "spam_tagged", data.spamTagged), (lit "spam_rejected", data.spamRejected),
      (lit "spam_deleted", data.spamDeleted), (lit "other", data.other)] ++
  block (ndBeginTime scannerd (some name) (some (lit "cached")) time)
    [(lit "sc_0", data.sc0), (lit "sc_1", data.sc1), (lit "cc_0", data.cc0),
      (lit "cc_1", data.cc1)] ++
  block (ndBeginTime scannerd (some name) (some (lit "duration")) time) durations ++
  block (ndBeginTime scannerd (some name) (some (lit "duration_ratio")) time) durations ++
  block (ndBeginTime scannerd (some name) (some (lit "incorrect_data_fields")) time)
    [(lit "null_field", data.nullField), (lit "empty_field", data.emptyField),
      (lit "incorrect_#clmns", data.incorrectNumClmns)]

/-! ### The current log -/

/-- The entry of a warning that was seen; `new` is an `int` used as a flag. -/
structure WarnT where
  count : ℤ
  name : Bytes
  new : ℤ
  deriving DecidableEq, Repr

inductive Scalar where
  | exAttempts | exScantimeout | exUnexpdata | exUnknown | exMimeErr | exArchiveErr
  | rsBadresponse
  | scanRes | scanWlQuery | scanWlScanner | scanQmqpcRule | scanMess | scanClean
  | daemonScannerRepl | daemonConn | daemonConnhandle
  | unpackFileOutput | unpackFileErr | unpackDeldir | unpackDelfile | unpackDel
  | exMaxsize
  | scanUnknownWlReply
  | daemonConnClosed
  deriving DecidableEq, Repr

structure ScannerdStatistics where
  swv : List WarnT
  sss : Scalar → ℤ

def errorNames : List (String × Scalar) :=
  [("ex_attempts", .exAttempts), ("ex_scantimeout", .exScantimeout),
    ("ex_unexpdata", .exUnexpdata), ("ex_unknown", .exUnknown), ("ex_mime_err", .exMimeErr),
    ("ex_archive_err", .exArchiveErr), ("rs_badresponse", .rsBadresponse),
    ("scan_res", .scanRes), ("scan_wl_query", .scanWlQuery),
    ("scan_wl_scanner", .scanWlScanner), ("scan_qmqpc_rule", .scanQmqpcRule),
    ("scan_mess", .scanMess), ("scan_clean", .scanClean),
    ("daemon_scanner_repl", .daemonScannerRepl), ("daemon_conn", .daemonConn),
    ("daemon_connhandle", .daemonConnhandle), ("unpack_file_output", .unpackFileOutput),
    ("unpack_file_err", .unpackFileErr), ("unpack_deldir", .unpackDeldir),
    ("unpack_delfile", .unpackDelfile), ("unpack_del", .unpackDel)]

def warningNames : List (String × Scalar) :=
  [("ex_maxsize", .exMaxsize), ("scan_unknown_wl_reply", .scanUnknownWlReply),
    ("daemon_conn_closed", .daemonConnClosed)]

def warningsChart (name : Bytes) : Command :=
  scannerdChart name "warnings" "Warnings" "# warnings" "scannerd" "scannerd.current_warnings"
    .line

def scannerdPrintHdr (name : Bytes) : List Command :=
  [scannerdChart name "errors" "Errors" "# errors" "scannerd" "scannerd.current_errors" .line] ++
  errorNames.map (fun d => dimension d.1 d.1 .absolute 1) ++
  [warningsChart name] ++
  warningNames.map (fun d => dimension d.1 d.1 .absolute 1)

/-- The loop of `print_new_header_warn`, on the entries from the last one on. -/
def newHeaders (name : Bytes) : List WarnT → List WarnT × List Command
  | [] => ([], [])
  | w :: rest =>
      if w.new = 0 then (w :: rest, [])
      else
        let r := newHeaders name rest
        ({ w with new := 0 } :: r.1,
          [warningsChart name, ndDimension w.name (some w.name) .absolute 1 1 .visible] ++ r.2)

def printNewHeaderWarn (name : Bytes) (warn : List WarnT) : List WarnT × List Command :=
  let r := newHeaders name warn.reverse
  (r.1.reverse, r.2)

/-- The record afterwards, and the output. -/
def scannerdPrint (name : Bytes) (data : ScannerdStatistics) (time : ℕ) :
    ScannerdStatistics × List Command :=
  let (swv, headers) := printNewHeaderWarn name data.swv
  ({ data with swv := swv },
    headers ++
    block (ndBeginTime scannerd (some name) (some (lit "warnings")) time)
      (warningNames.map (fun d => (lit d.1, data.sss d.2)) ++
        swv.map fun w => (w.name, w.count)) ++
    block (ndBeginTime scannerd (some name) (some (lit "errors")) time)
      (errorNames.map fun d => (lit d.1, data.sss d.2)))

end NetdataPlugins.Scanner
