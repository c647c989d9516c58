import Verdict.Basics.Run
import Verdict.Contracts.WorkGraph

/-! # The control channel of a run directory

`controls.jsonl` holds one JSON request a line. Appends are sequential, but the text of the last
one may become visible in pieces. The reader of a controller counts consumed lines, a torn last
one included, and neither the count nor the set of processed ids outlives the controller. A
request is acted on exactly once in every history in which polls see whole lines only, nothing
stands behind a `cancel_run` in its batch, and no controller is started after requests were
polled.
-/
namespace Verdict.Controls
open Run
open List (map_append map_cons map_nil map_take mem_append mem_cons)

inductive ControlKind
  | cancelRun | cancelNode | retryNode
  deriving DecidableEq

def ControlKind.name : ControlKind → String
  | cancelRun => "cancel_run"
  | cancelNode => "cancel_node"
  | retryNode => "retry_node"

structure ControlRequest where
  id : String
  kind : ControlKind
  nodeId : Option String
  (requestedAt requestedBy : String)
  deriving DecidableEq

inductive ControlError
  | unknownKind (kind : String)
  | requiresNodeId (kind : String)
  | unknownNodeId (nodeId : String)
  | noNodeId (kind : String)

/-- The checks of `request_control`; `id` and `requestedAt` are drawn by the caller. -/
def requestControl (id requestedAt : String) (kind : String) (nodeId : Option String) (requestedBy : String)
    (graph : Option WorkGraph) : Except ControlError ControlRequest :=
  match [ControlKind.cancelRun,.cancelNode,.retryNode].find? (fun k => k.name = kind) with
  | none => .error (.unknownKind kind)
  | some .cancelRun => if nodeId.isSome then .error (.noNodeId kind)
      else .ok ⟨id,.cancelRun,none,requestedAt,requestedBy⟩
  | some k => match nodeId with
    | none => .error (.requiresNodeId kind)
    | some i =>
      if graph.any (fun g => decide (i ∉ g.ids)) then .error (.unknownNodeId i)
      else .ok ⟨id,k,some i,requestedAt,requestedBy⟩

def hexDigit (n : ℕ) : Char := "0123456789abcdef".toList.getD (n % 16) '0'

def unicodeEscape (n : ℕ) : List Char :=
  ['\\','u',hexDigit (n / 4096),hexDigit (n / 256),hexDigit (n / 16),hexDigit n]

def escapeChar (c : Char) : List Char :=
  let n := c.toNat
  if c = '"' then ['\\','"']
  else if c = '\\' then ['\\','\\']
  else if c = '\n' then ['\\','n']
  else if c = '\r' then ['\\','r']
  else if c = '\t' then ['\\','t']
  else if n = 8 then ['\\','b']
  else if n = 12 then ['\\','f']
  else if 32 ≤ n ∧ n ≤ 126 then [c]
  else if n < 65536 then unicodeEscape n
  else unicodeEscape (0xD800 + (n - 65536) / 1024) ++ unicodeEscape (0xDC00 + (n - 65536) % 1024)

def jsonString (s : String) : List Char := ['"'] ++ s.toList.flatMap escapeChar ++ ['"']

def jsonField (key value : String) : List Char := jsonString key ++ [':',' '] ++ jsonString value

/-- `json.dumps(req.to_dict())`. -/
def dumps (r : ControlRequest) : List Char :=
  let fields := [jsonField "id" r.id,jsonField "kind" r.kind.name,jsonField "requested_at" r.requestedAt,
    jsonField "requested_by" r.requestedBy] ++ (r.nodeId.map (jsonField "node_id")).toList
  ['\x7b'] ++ [',',' '].intercalate fields ++ ['\x7d']

/-- A line of the file: the request whose text is being written, and how many of its
characters are visible. -/
structure Line where
  request : ControlRequest
  visible : ℕ

def Line.complete (l : Line) : Bool := (dumps l.request).length ≤ l.visible

/-- `json.loads` of the visible text: no proper prefix of an object is a JSON text. -/
def Line.loads (l : Line) : Option ControlRequest := if l.complete then some l.request else none

/-- What one `DagRuntime` knows of the channel: the line cursor of its reader and the
ids it has processed. -/
structure Reader where
  offset : ℕ := 0
  processed : List String := []

/-- `ControlReader.pending`: parse the lines after the cursor, skip what does not parse,
and move the cursor behind everything that was read. -/
def Reader.pending (rd : Reader) (lines : List Line) : List ControlRequest × ℕ :=
  ((lines.drop rd.offset).filterMap Line.loads,lines.length)

/-- The loop of `_poll_controls`: the processed ids, what was handled, and whether a
`cancel_run` ended the controller (and with it the batch). -/
def pollLoop : List ControlRequest → List String → List String × List ControlRequest × Bool
  | [], processed => (processed,[],false)
  | r :: rest, processed =>
    if r.id ∈ processed then pollLoop rest processed
    else if r.kind = .cancelRun then (r.id :: processed,[r],true)
    else
      let (processed,handled,cancelled) := pollLoop rest (r.id :: processed)
      (processed,r :: handled,cancelled)

/-- The channel over the whole history of a run. `polled` holds every request whose
line was complete at some poll, `handled` every request acted on, in order. -/
structure Channel where
  lines : List Line := []
  reader : Option Reader := none
  polled : List ControlRequest := []
  handled : List ControlRequest := []

inductive Act
  | start
  | request (r : ControlRequest) (visible : ℕ)
  | grow (visible : ℕ)
  | poll

variable (s : Channel)

def Channel.ids : List String := s.lines.map fun l => l.request.id

def growLast (visible : ℕ) : List Line → List Line
  | [] => []
  | [l] => [{l with visible := max l.visible visible}]
  | l :: rest => l :: growLast visible rest

/-- `_poll_controls`; a `cancel_run` makes the controller leave its loop. -/
def Channel.pollControls (rd : Reader) : Channel :=
  let batch := rd.pending s.lines
  let result := pollLoop batch.1 rd.processed
  { s with
    reader := if result.2.2 then none else some ⟨batch.2,result.1⟩
    polled := s.polled ++ s.lines.filterMap Line.loads
    handled := s.handled ++ result.2.1 }

/-- One event on the channel. Request ids are fresh, and an append starts only when
the one before it is wholly written. -/
def step : Act → Option Channel
  | .start => some { s with reader := some {} }
  | .request r visible =>
    if r.id ∉ s.ids ∧ s.lines.all Line.complete ∧ 0 < visible then
      some {s with lines := s.lines ++ [⟨r,visible⟩]}
    else none
  | .grow visible => some {s with lines := growLast visible s.lines}
  | .poll => s.reader.map s.pollControls

/-- Every request that was complete at a poll was handled, and none was handled twice. -/
def ExactlyOnce : Prop :=
  (s.handled.map ControlRequest.id).Nodup ∧ ∀ r ∈ s.polled, r ∈ s.handled

/-- Nothing stands behind a `cancel_run`. -/
def cancelLast : List ControlRequest → Bool
  | [] => true
  | r :: rest => (r.kind ≠ .cancelRun || rest.isEmpty) && cancelLast rest

/-- The condition on a step: polls see whole lines and no request behind a
`cancel_run`; a controller is started only before any request was polled. -/
def Orderly : Act → Prop
  | .start => s.polled = []
  | .poll => s.lines.all Line.complete = true ∧
      s.reader.all (fun rd => cancelLast (rd.pending s.lines).1) = true
  | _ => True

instance : (s : Channel) → (a : Act) → Decidable (Orderly s a)
  | s, .start => inferInstanceAs (Decidable (s.polled = []))
  | s, .poll => inferInstanceAs (Decidable (s.lines.all Line.complete = true ∧
      s.reader.all (fun rd => cancelLast (rd.pending s.lines).1) = true))
  | _, .request _ _ => isTrue trivial
  | _, .grow _ => isTrue trivial

theorem pollLoop_fresh {batch : List ControlRequest} {processed : List String}
    (hfresh : ∀ r ∈ batch, r.id ∉ processed) (hnodup : (batch.map ControlRequest.id).Nodup)
    (hlast : cancelLast batch = true) : (pollLoop batch processed).2.1 = batch ∧ ∀ i, i ∈
    (pollLoop batch processed).1 ↔ i ∈ processed ∨ i ∈ batch.map ControlRequest.id := by
  induction batch generalizing processed with
  | nil => simp [pollLoop]
  | cons r rest ih =>
    have hr : r.id ∉ processed := hfresh r List.mem_cons_self
    obtain ⟨hnr,hnrest⟩ := List.nodup_cons.mp hnodup
    simp only [cancelLast,Bool.and_eq_true,Bool.or_eq_true,decide_eq_true_eq,List.isEmpty_iff] at hlast
    by_cases hk : r.kind = .cancelRun
    · have hrest : rest = [] := hlast.1.resolve_left (fun hne => hne hk)
      subst hrest
      simp only [pollLoop,if_neg hr,if_pos hk,mem_cons,map_cons,map_nil,List.not_mem_nil, or_false,true_and]
      exact fun i => or_comm
    · have hfresh' : ∀ q ∈ rest, q.id ∉ r.id :: processed := by
        intro q hq
        simp only [mem_cons,not_or]
        exact ⟨fun h => hnr (h ▸ List.mem_map_of_mem hq),hfresh q (List.mem_cons_of_mem _ hq)⟩
      obtain ⟨hh,hp⟩ := ih hfresh' hnrest hlast.2
      simp only [pollLoop,if_neg hr,if_neg hk,hh,hp,mem_cons,map_cons,true_and]
      exact fun i => by tauto

theorem growLast_length (v : ℕ) (ls : List Line) : (growLast v ls).length = ls.length := by
  induction ls with
  | nil => rfl
  | cons l rest ih =>
    cases rest with
    | nil => rfl
    | cons m rest => simpa [growLast] using ih

theorem growLast_request (v : ℕ) (ls : List Line) : (growLast v ls).map Line.request = ls.map Line.request := by
  induction ls with
  | nil => rfl
  | cons l rest ih =>
    cases rest with
    | nil => rfl
    | cons m rest => simpa [growLast] using ih

theorem filterMap_loads {ls : List Line} (h : ∀ l ∈ ls, l.complete = true) :
    ls.filterMap Line.loads = ls.map Line.request := by
  induction ls with
  | nil => rfl
  | cons l rest ih =>
    have hl : l.loads = some l.request := by simp [Line.loads,h l List.mem_cons_self]
    simp only [List.filterMap_cons,hl,map_cons,ih fun m hm => h m (List.mem_cons_of_mem _ hm)]

structure Inv (s : Channel) : Prop where
  idsNodup : s.ids.Nodup
  polled : ∀ r ∈ s.polled, r ∈ s.handled
  reader : ∀ rd, s.reader = some rd → rd.offset ≤ s.lines.length ∧
    s.handled = (s.lines.take rd.offset).map Line.request ∧
    ∀ i, i ∈ rd.processed ↔ i ∈ s.handled.map ControlRequest.id
  handled : s.handled <+: s.lines.map Line.request
  sawPolled : s.polled = [] → s.handled = []

theorem Inv.initial : Inv {} where
  idsNodup := List.nodup_nil
  polled := by simp
  reader := by simp
  handled := List.prefix_rfl
  sawPolled := fun _ => rfl

theorem Channel.ids_eq : s.ids = (s.lines.map Line.request).map ControlRequest.id := by
  simp [Channel.ids,Function.comp_def]

theorem step_inv {s t : Channel} {a : Act} (hi : Inv s) (hok : Orderly s a) (h : step s a = some t) : Inv t := by
  cases a with
  | start =>
    cases h
    have hnone := hi.sawPolled hok
    refine ⟨hi.idsNodup,hi.polled,?_,hi.handled,hi.sawPolled⟩
    rintro rd ⟨⟩
    simp [hnone]
  | request r visible =>
    simp only [step] at h
    split at h
    · rename_i hnew
      cases h
      refine ⟨?_,hi.polled,?_,?_,hi.sawPolled⟩
      · simp only [Channel.ids,map_append,map_cons,map_nil]
        refine List.nodup_append.mpr ⟨hi.idsNodup,List.nodup_singleton _,?_⟩
        rintro x hx y hy rfl
        cases List.mem_singleton.mp hy
        exact hnew.1 hx
      · intro rd hrd
        obtain ⟨hle,htake,hproc⟩ := hi.reader rd hrd
        refine ⟨?_,?_,hproc⟩
        · simp only [List.length_append]
          omega
        · rw [List.take_append_of_le_length hle]
          exact htake
      · rw [map_append]
        exact hi.handled.trans (List.prefix_append _ _)
    · cases h
  | grow visible =>
    cases h
    have hreq := growLast_request visible s.lines
    refine ⟨?_,hi.polled,?_,?_,hi.sawPolled⟩
    · rw [Channel.ids_eq]
      dsimp only
      rw [hreq,← Channel.ids_eq]
      exact hi.idsNodup
    · intro rd hrd
      obtain ⟨hle,htake,hproc⟩ := hi.reader rd hrd
      refine ⟨(growLast_length visible s.lines).symm ▸ hle,?_,hproc⟩
      rw [map_take,hreq,← map_take]
      exact htake
    · dsimp only
      rw [hreq]
      exact hi.handled
  | poll =>
    obtain ⟨rd,hrd,rfl⟩ := Option.map_eq_some_iff.mp h
    obtain ⟨hwhole,hlast⟩ := hok
    rw [List.all_eq_true] at hwhole
    rw [hrd,Option.all_some] at hlast
    obtain ⟨hle,htake,hproc⟩ := hi.reader rd hrd
    have hbatch : (rd.pending s.lines).1 = (s.lines.drop rd.offset).map Line.request :=
      filterMap_loads fun l hl => hwhole l (List.mem_of_mem_drop hl)
    have hall : s.handled ++ (s.lines.drop rd.offset).map Line.request = s.lines.map Line.request := by
      rw [htake,← map_append,List.take_append_drop]
    have hids : ((s.handled ++ (s.lines.drop rd.offset).map Line.request).map ControlRequest.id).Nodup := by
      rw [hall,← Channel.ids_eq]
      exact hi.idsNodup
    rw [map_append] at hids
    obtain ⟨_,hnodup,hdisj⟩ := List.nodup_append.mp hids
    have hfresh : ∀ r ∈ (s.lines.drop rd.offset).map Line.request, r.id ∉ rd.processed :=
      fun r hr hp => hdisj _ ((hproc r.id).mp hp) _ (List.mem_map_of_mem hr) rfl
    obtain ⟨hhandled,hprocessed⟩ := pollLoop_fresh hfresh hnodup (hbatch ▸ hlast)
    have hnew : s.handled ++ (pollLoop (rd.pending s.lines).1 rd.processed).2.1 = s.lines.map Line.request := by
      rw [hbatch,hhandled,hall]
    refine ⟨hi.idsNodup,?_,?_,?_,?_⟩
    · intro r hr
      rcases mem_append.mp hr with hr | hr
      · exact mem_append.mpr (.inl (hi.polled r hr))
      · rw [filterMap_loads hwhole] at hr
        exact (show r ∈ s.handled ++ _ from hnew.symm ▸ hr)
    · intro rd' hrd'
      simp only [Channel.pollControls] at hrd'
      split at hrd'
      · cases hrd'
      · cases hrd'
        refine ⟨le_rfl,?_,fun i => ?_⟩
        · exact hnew.trans (by simp [Channel.pollControls,Reader.pending])
        · simp only [Channel.pollControls]
          rw [hnew,← hall,map_append,mem_append,← hproc i,← hprocessed i,hbatch]
    · exact ⟨[],(List.append_nil _).trans hnew⟩
    · intro hnone
      obtain ⟨_,hnone⟩ := List.append_eq_nil_iff.mp hnone
      rw [filterMap_loads hwhole] at hnone
      exact hnew.trans hnone

/-- In every orderly history, requests complete at a poll are acted on exactly once. -/
theorem orderly_exactlyOnce {as : List Act} {s : Channel} (hok : AllSteps step Orderly {} as)
    (h : exec step {} as = some s) : ExactlyOnce s := by
  have hi : Inv s := exec_invariant_of (fun _ _ _ => step_inv) hok h .initial
  refine ⟨?_,hi.polled⟩
  have hids := hi.idsNodup
  rw [Channel.ids_eq] at hids
  exact hids.sublist (hi.handled.sublist.map _)

def retryAlpha : ControlRequest := ⟨"0a1b2c3d4e5f",.retryNode,some "alpha","2026-01-01T00:00:00+00:00","operator"⟩

def cancelAll : ControlRequest := ⟨"5f4e3d2c1b0a",.cancelRun,none,"2026-01-01T00:00:05+00:00","operator"⟩

def orderlyRun : List Act :=
  [.start,.poll,.request retryAlpha 20,.grow 400,.poll,.request cancelAll 400,.poll]

set_option maxRecDepth 4000 in
theorem orderly_exactlyOnce_run : ∃ s, exec step {} orderlyRun = some s ∧ s.handled = [retryAlpha,cancelAll] ∧
    ExactlyOnce s := by
  have hok : AllSteps step Orderly {} orderlyRun := by decide
  exact ⟨_,rfl,by decide,orderly_exactlyOnce hok rfl⟩

set_option maxRecDepth 4000 in
/-- A poll that sees the first twenty characters consumes the line, so the request is
never acted on; a second controller acts again on what the first one handled. -/
theorem torn_lost_and_replayed :
    (∃ s, exec step {} [.start,.request retryAlpha 20,.poll,.grow 400,.poll] = some s ∧
      retryAlpha ∈ s.polled ∧ s.handled = [] ∧ ¬ ExactlyOnce s) ∧
    ∃ s, exec step {} [.start,.request cancelAll 400,.poll,.start,.poll] = some s ∧
      s.handled = [cancelAll,cancelAll] ∧ ¬ ExactlyOnce s := by
  refine ⟨⟨_,rfl,by decide,by decide,fun h => ?_⟩,⟨_,rfl,by decide,fun h => ?_⟩⟩
  · exact absurd (h.2 retryAlpha (by decide)) (by decide)
  · exact absurd h.1 (by decide)

end Verdict.Controls
