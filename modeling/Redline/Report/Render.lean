import Redline.Report.Audit

/-!
# Checking and rendering a set of results files

`check_results`, `load_results` and `render_markdown` of `bench/report.py`.  A document is its
sections and notes before they are formatted; each row keeps the file it was made from.
-/

namespace Redline
namespace Report
open Py Py.Value

variable {F : Type} [FloatOps F] {α : Type}

/-- why a file cannot be read -/
inductive ReadError where
  /-- `OSError` or `JSONDecodeError` -/
  | unreadable
  /-- `UnicodeDecodeError`, which nobody catches -/
  | undecodable
  deriving DecidableEq, Repr

/-- a path with what `json.loads` makes of its text -/
structure ResultFile (F : Type) where
  path : String
  content : Except ReadError (Value F)

/-- a validated file; `_source` names it -/
structure Loaded (F : Type) where
  source : String
  result : Value F

/-- what a `ReportError` says about a set of files -/
inductive SetProblem (F : Type) where
  | noFiles
  | unreadable (path : String)
  | invalid (path : String) (problem : Problem F)
  | mismatchedEnvironments (gpus : List String)
  | missingCapture (sources : List String)
  | nothingToRender
  | duplicate (engine case : Value F) (first second : String)
  | ambiguousLabel (label : String) (case : Value F) (first second : String)

abbrev Outcome (F : Type) (α : Type) := Except (Raised (SetProblem F)) α

/-- what the module takes from the interpreter: `str`, the first group of `re.search`, `re.match` -/
structure Builtins (F : Type) where
  str : Value F → String
  search : String → String → Option String
  isMatch : String → String → Bool

variable (py : Builtins F)

def Loaded.item (r : Loaded F) (key : String) : Outcome F (Value F) := lift (getItem key r.result)

/-- a dict key has to be hashable -/
def hashed (v : Value F) : Outcome F (Value F) := if hashable v then .ok v else .error (.exn .typeError)

/-! ## labels and orders -/

def engineRowLabel (r : Loaded F) : Outcome F String := do
  let engine ← r.item "engine"
  let config := (← lift (get "engine_config" r.result)).getD (.obj [])
  let version ← lift (getD "vllm_version" config)
  match engine with
  | .str name =>
    return if name.startsWith "vllm" && truthy version then "vllm " ++ py.str version else name
  | _ => .error (.exn .attributeError)

def caseOrder : List String := ["primary", "arrival", "longout", "batch1"]

def engineOrder : List String := ["redline", "vllm", "vllm024", "llamacpp"]

abbrev SortKey (F : Type) := Nat × Value F

def sortKey (sequence : List String) (v : Value F) : SortKey F :=
  ((sequence.findIdx? fun s => eq v (.str s)).getD sequence.length, v)

/-- `<` of tuples -/
def keyBelow (p q : SortKey F) : Except Exn Bool :=
  if p.1 ≠ q.1 then .ok (decide (p.1 < q.1)) else if eq p.2 q.2 then .ok false else lt p.2 q.2

def keySame (p q : SortKey F) : Bool := p.1 = q.1 && eq p.2 q.2

/-! ## environments -/

def parseGpuName (text : String) : Option String :=
  py.search "^\\s*Product Name\\s*:\\s*(.+?)\\s*$" text

def parseDriverVersion (text : String) : Option String :=
  py.search "^\\s*Driver Version\\s*:\\s*(.+?)\\s*$" text

def environmentGpu (r : Loaded F) : Outcome F (Option String × Option String) := do
  let capture ← lift (getD "nvidia_smi_q" (← r.item "environment"))
  let text := match capture with
    | .obj fields => (lookup "output" fields).getD .null
    | _ => .null
  if ¬ truthy text then return (none, none)
  else match text with
    | .str s => return (parseGpuName py s, parseDriverVersion py s)
    | _ => .error (.exn .typeError)

/-- the captures of the files, and the files without one -/
structure Captures (F : Type) where
  found : List (String × Option String × Loaded F) := []
  missing : List (Loaded F) := []

def captures (results : List (Loaded F)) : Outcome F (Captures F) :=
  results.foldlM (fun c r => do
    match ← environmentGpu py r with
    | (some gpu, driver) => return { c with found := c.found ++ [(gpu, driver, r)] }
    | (none, _) => return { c with missing := c.missing ++ [r] }) {}

/-- the common GPU, with the rows measured under each driver where there are several -/
structure Environment where
  gpu : Option String := none
  drivers : List (Option String × List String) := []
  deriving DecidableEq, Repr

def engineSortKey (r : Loaded F) : Outcome F (SortKey F) :=
  do return sortKey engineOrder (← r.item "engine")

/-- the files in the order of their engines -/
def byEngine (results : List (Loaded F)) : Outcome F (List (Loaded F)) := do
  let keyed ← results.mapM fun r => do return (← engineSortKey r, r)
  return (← lift (sortBy (fun p q => keyBelow p.1 q.1) keyed)).map Prod.snd

/-- one driver with the labels of its rows -/
def driverPart (driver : Option String) (group : List (Loaded F)) :
    Outcome F (Option String × List String) := do
  return (driver, (← (← byEngine group).mapM (engineRowLabel py)).eraseDups)

def driverNote (found : List (String × Option String × Loaded F)) :
    Outcome F (List (Option String × List String)) := do
  let drivers := (found.map (·.2.1)).eraseDups
  if drivers.length = 1 then return drivers.map (·, [])
  else
    let groups ← drivers.mapM fun driver => do
      let group := (found.filter fun c => c.2.1 == driver).map (·.2.2)
      return (← byEngine group, driver)
    let keyed ← groups.mapM fun (group, driver) => do
      return ((← group.mapM engineSortKey).headD (0, .null), driver, group)
    (← lift (sortBy (fun p q => keyBelow p.1 q.1) keyed)).mapM fun
    (_, driver, group) => driverPart py driver group

def checkSameEnvironment (results : List (Loaded F)) : Outcome F Environment := do
  let c ← captures py results
  match (c.found.map (·.1)).eraseDups with
  | [] => return {}
  | [gpu] =>
    if c.missing.isEmpty then return ⟨some gpu, ← driverNote py c.found⟩
    else .error (.report (.missingCapture (c.missing.map (·.source))))
  | gpus => .error (.report (.mismatchedEnvironments gpus))

/-! ## rendering -/

def columns : List String :=
  ["throughput_tok_s", "decode_rate_p50_tok_s", "ttft_p50_s", "ttft_p99_s", "itl_p50_s", "itl_p99_s"]

def msMetrics : List String := ["ttft_p50_s", "ttft_p99_s", "itl_p50_s", "itl_p99_s"]

/-- a cell: the median with min and max, and the dagger -/
structure Cell (F : Type) where
  value : Value F
  min : Value F
  max : Value F
  dagger : Bool

structure Row (F : Type) where
  /-- the file the row shows -/
  result : Loaded F
  label : String
  cells : List (Option (Cell F))

/-- the workload that a header or a file states -/
structure Dims (F : Type) where
  numRequests : Value F
  inputLen : Value F
  outputLen : Value F

structure Section (F : Type) where
  case : Value F
  header : Dims F
  rows : List (Row F)

structure Document (F : Type) where
  environment : Environment
  sections : List (Section F)
  dates : List String
  pins : List String
  commands : List String

def formatCell (entry : Value F) (metric : String) (flagged : Bool) : Except Exn (Cell F) := do
  let scale : Value F := float (FloatOps.lit (if metric ∈ msMetrics then 1000 else 1))
  return {
    value := ← mul (← getItem "value" entry) scale
    min := ← mul (← getItem "min" entry) scale
    max := ← mul (← getItem "max" entry) scale
    dagger := flagged }

def renderRow (r : Loaded F) : Outcome F (Row F) := do
  let flagged := truthy (← lift (getD "flag" (← r.item "dispersion")))
  let label ← engineRowLabel py r
  let metrics ← r.item "metrics"
  let cells ← columns.mapM fun metric => do
    match ← lift (get metric metrics) with
    | none => return none
    | some .null => return none
    | some entry => return some (← lift (formatCell entry metric (flagged && metric == headlineMetric)))
  return ⟨r, label, cells⟩

def workloadDims (r : Loaded F) : Outcome F (Dims F) := do
  let w ← r.item "workload"
  return ⟨← lift (getItem "num_requests" w), ← lift (getItem "input_len" w),
    ← lift (getItem "output_len" w)⟩

/-- the section of one case: the header is the first file's -/
def renderSection (case : Value F) (engines : List (Loaded F)) : Outcome F (Section F) := do
  match engines with
  | [] => .error (.exn .valueError)
  | sample :: _ => do
    let header ← workloadDims sample
    let rows ← (← byEngine engines).mapM (renderRow py)
    return ⟨case, header, rows⟩

abbrev ByCase (F : Type) := List (Value F × List (Loaded F))

def enginesOf (case : Value F) (groups : ByCase F) : List (Loaded F) :=
  ((groups.find? fun g => eq g.1 case).map Prod.snd).getD []

/-- `by_case.setdefault(case, {})[engine] = result`, of an engine that is new -/
def addResult (case : Value F) (r : Loaded F) : ByCase F → ByCase F
  | [] => [(case, [r])]
  | g :: groups => if eq g.1 case then (g.1, g.2 ++ [r]) :: groups else g :: addResult case r groups

/-- a file of another engine with the same label -/
def labelCollision (engines : List (Loaded F)) (r : Loaded F) : Outcome F (Option (Loaded F)) := do
  let label ← engineRowLabel py r
  let engine ← r.item "engine"
  let labelled ← engines.mapM fun other =>
    do return (← other.item "engine", ← engineRowLabel py other, other)
  return (labelled.find? fun p => !eq p.1 engine && p.2.1 == label).map (·.2.2)

def groupByCase (results : List (Loaded F)) : Outcome F (ByCase F) :=
  results.foldlM (fun groups r => do
    let case ← hashed (← r.item "case")
    let engine ← hashed (← r.item "engine")
    let engines := enginesOf case groups
    let named ← engines.mapM fun other => do return (← other.item "engine", other)
    match named.find? fun p => eq p.1 engine with
    | some (_, other) => .error (.report (.duplicate engine case other.source r.source))
    | none =>
      match ← labelCollision py engines r with
      | some clash =>
        .error (.report (.ambiguousLabel (← engineRowLabel py r) case clash.source r.source))
      | none => return addResult case r groups) []

def measurementDates (results : List (Loaded F)) : Outcome F (List String) := do
  let stamps ← results.mapM fun r => do
    lift (getD "timestamp_utc" ((← lift (get "environment" r.result)).getD (.obj [])))
  let dates := stamps.filterMap fun stamp => match stamp with
    | .str s =>
      if py.isMatch "^\\d\x7b4\x7d-\\d\x7b2\x7d-\\d\x7b2\x7dT" s then
        some (String.ofList (s.toList.take 10)) else none
    | _ => none
  lift (sortBy (fun s t => .ok (decide (s < t))) dates.eraseDups)

def pinKeys : List String := ["vllm_version", "module_version", "build_info", "version"]

def engineVersions (results : List (Loaded F)) : Outcome F (List String) := do
  let pins ← results.mapM fun r => do
    let config := (← lift (get "engine_config" r.result)).getD (.obj [])
    let versions ← pinKeys.mapM fun key => lift (getD key config)
    match ← r.item "engine" with
    | .str engine => return " ".intercalate (engine :: (versions.filter truthy).map py.str)
    | _ => .error (.exn .typeError)
  return pins.eraseDups

/-- the recorded command lines, in the order of their cases and engines -/
def reproductionLines (results : List (Loaded F)) : Outcome F (List String) := do
  let recorded ← results.mapM fun r => do
    let case ← hashed (← r.item "case")
    let engine ← hashed (← r.item "engine")
    let parts ← lift (elements (← lift (getItem "command_line" (← r.item "environment"))))
    return (sortKey caseOrder case, sortKey engineOrder engine, " ".intercalate (parts.map py.str))
  let ordered ← lift (sortBy (fun p q =>
    if keySame p.1 q.1 then keyBelow p.2.1 q.2.1 else keyBelow p.1 q.1) recorded)
  return ordered.map (·.2.2)

def renderMarkdown (results : List (Loaded F)) : Outcome F (Document F) := do
  if results.isEmpty then .error (.report .nothingToRender)
  else
    let environment ← checkSameEnvironment py results
    let groups ← groupByCase py results
    let cases ← lift (sortBy (fun p q => keyBelow p.1 q.1) (groups.map fun g =>
      (sortKey caseOrder g.1, g)))
    let sections ← cases.mapM fun (_, case, engines) => renderSection py case engines
    let dates ← measurementDates py results
    let pins ← engineVersions py (← byEngine results)
    return ⟨environment, sections, dates, pins, ← reproductionLines py results⟩

/-! ## files -/

/-- one file through the gate -/
def loadFile (file : ResultFile F) : Outcome F (Loaded F) :=
  match file.content with
  | .error .unreadable => .error (.report (.unreadable file.path))
  | .error .undecodable => .error (.exn .valueError)
  | .ok result =>
    match validateResult result with
    | .ok _ => .ok ⟨file.path, result⟩
    | .error (.report problem) => .error (.report (.invalid file.path problem))
    | .error (.exn e) => .error (.exn e)

def loadResults (files : List (ResultFile F)) : Outcome F (List (Loaded F)) :=
  if files.isEmpty then .error (.report .noFiles) else files.mapM loadFile

/-- what `--results` prints -/
def render (files : List (ResultFile F)) : Outcome F (Document F) :=
  do renderMarkdown py (← loadResults files)

/-! ## the check -/

structure Checked (F : Type) where
  failures : List (SetProblem F) := []
  results : List (Loaded F) := []
  /-- the path of each engine and case -/
  seenPairs : List (Value F × Value F × String) := []
  /-- the engine and the path of each case and label -/
  seenLabels : List (Value F × String × Value F × String) := []

def Checked.fail (c : Checked F) (problem : SetProblem F) : Checked F :=
  { c with failures := c.failures ++ [problem] }

/-- one turn of the loop -/
def checkFile (c : Checked F) (file : ResultFile F) : Outcome F (Checked F) := do
  match loadFile file with
  | .error (.report problem) => return c.fail problem
  | .error (.exn e) => .error (.exn e)
  | .ok r =>
    let engine ← hashed (← r.item "engine")
    let case ← hashed (← r.item "case")
    match c.seenPairs.find? fun p => eq p.1 engine && eq p.2.1 case with
    | some (_, _, path) => return c.fail (.duplicate engine case path r.source)
    | none =>
      let label ← engineRowLabel py r
      match c.seenLabels.find? fun p => eq p.1 case && p.2.1 == label && !eq p.2.2.1 engine with
      | some (_, _, _, path) => return c.fail (.ambiguousLabel label case path r.source)
      | none => return { c with
          results := c.results ++ [r]
          seenPairs := c.seenPairs ++ [(engine, case, r.source)]
          seenLabels := c.seenLabels ++ [(case, label, engine, r.source)] }

/-- the exit code -/
def checkResults (files : List (ResultFile F)) : Outcome F Nat := do
  if files.isEmpty then .error (.report .noFiles)
  else
    let c ← files.foldlM (checkFile py) {}
    if c.results.isEmpty then return if c.failures.isEmpty then 0 else 1
    else match checkSameEnvironment py c.results with
      | .ok _ => return if c.failures.isEmpty then 0 else 1
      | .error (.report _) => return 1
      | .error (.exn e) => .error (.exn e)

end Report
end Redline
