import Verdict.Basics.Raising
import Verdict.Evidence.Document

/-! # Receipts without a NaN

A NaN is the one value that does not equal what is read back of it. Everything a receipt
copies comes from the data of the events or from the `openspec` object of `graph.json`; when
these have no NaN, the receipt has none.
-/
namespace Verdict.Evidence
open Json Raising
open List (mem_map mem_of_mem_filter)

structure Row.Clean (row : Row) : Prop where
  probes : Finite row.probes
  duration : ∀ j ∈ row.duration, j.hasNan = false
  usage : ∀ fs ∈ row.usage, Finite fs
  served : ∀ s ∈ row.served, Finite s.1

structure Scan.Clean (sc : Scan) : Prop where
  rows : ∀ k, ∀ row ∈ sc.attempts.get? k, row.Clean
  pending : Finite sc.pending.probes

section
variable {env : Env} {e : RunEvent} {row row' : Row} {sc sc' : Scan} {data : Fields}

theorem probesOf_clean {base : Fields} (h : Finite base) : Finite (probesOf env data base) := by
  rw [probesOf]
  generalize probeFields = keys
  induction keys generalizing base with
  | nil => exact h
  | cons key keys ih =>
    refine ih ?_
    dsimp only
    split
    · exact h.put rfl
    · exact h

theorem Row.touch_clean {pending : Pending} (h : row.Clean) (hpending : Finite pending.probes) :
    (row.touch env e pending).1.Clean ∧ Finite (row.touch env e pending).2.probes := by
  have hprobes : Finite (probesOf env e.data row.probes) := probesOf_clean h.probes
  simp only [Row.touch]
  generalize (if e.type = .failure ∧ row.terminal.isSome = true then row.routeId
    else textOr env e.data "route_id" row.routeId) = route
  split
  · exact ⟨⟨hprobes,h.duration,h.usage,h.served⟩,hpending⟩
  · split
    · exact ⟨⟨hprobes.update hpending,h.duration,h.usage,h.served⟩,rfl⟩
    · split
      · exact ⟨⟨hprobes,h.duration,h.usage,h.served⟩,rfl⟩
      · exact ⟨⟨hprobes,h.duration,h.usage,h.served⟩,hpending⟩

theorem durationOf_clean {duration : Option Json} (hdata : Finite data) (h : durationOf env data = .ok duration) :
    ∀ j ∈ duration, j.hasNan = false := by
  have hfinite := hdata.get "duration_seconds"
  simp only [durationOf] at h
  generalize get data "duration_seconds" = j at h hfinite
  split at h
  · split at h
    · cases h
      rintro _ ⟨⟩
      rfl
    · cases h
  · cases h
    rintro _ ⟨⟩
    rfl
  · cases h
    rintro _ ⟨⟩
    rfl
  · cases h
    rintro _ ⟨⟩
    rfl
  · cases hfinite
  · cases h
    rintro _ ⟨⟩
    rfl
  · cases h
    rintro _ ⟨⟩
    rfl
  · cases h
    exact fun j hj => by cases hj

theorem listOf_clean {j : Json} {xs : List Json} (hj : j.hasNan = false) (h : listOf j = .ok xs) :
    ∀ x ∈ xs, x.hasNan = false := by
  simp only [listOf] at h
  split at h
  · cases h
    exact fun x hx => absurd hx List.not_mem_nil
  · split at h
    · cases h
      exact (hasNan_arr _).mp hj
    · cases h
      intro x hx
      obtain ⟨c,_,rfl⟩ := mem_map.mp hx
      rfl
    · cases h
      intro x hx
      obtain ⟨f,_,rfl⟩ := mem_map.mp hx
      rfl
    · cases h

theorem servedIdentity_clean {check identity : Fields} (hcheck : Finite check) (h : servedIdentity check = .ok identity) :
    Finite identity := by
  obtain ⟨reasons,hreasons,rfl⟩ := map_ok.mp h
  have hserved : Finite (get check "served").fields := finite_fields (hcheck.get "served")
  simp only [finite_append,finite_cons,finite_nil,and_true,hasNan_arr]
  refine ⟨⟨⟨hcheck.get _,hcheck.get _⟩,finite_iff.mpr fun f hf => ?_⟩,listOf_clean (hcheck.get _) hreasons⟩
  obtain ⟨key,_,rfl⟩ := mem_map.mp hf
  exact hserved.get key

theorem Row.finish_clean (h : row.Clean) (hdata : Finite data) (hfinish : row.finish env data = .ok row') : row'.Clean := by
  simp only [Row.finish] at hfinish
  obtain ⟨duration,hduration,hfinish⟩ := bind_ok.mp hfinish
  obtain ⟨served,hserved,hfinish⟩ := bind_ok.mp hfinish
  cases hfinish
  refine ⟨h.probes,fun j hj => ?_,fun fs hfs => ?_,fun s hs => ?_⟩
  · rcases Option.or_eq_some_iff.mp hj with hj | ⟨-,hj⟩
    · exact durationOf_clean hdata hduration j hj
    · exact h.duration j hj
  · dsimp only at hfs
    split at hfs
    · cases hfs
      exact finite_fields (hdata.get "usage")
    · exact h.usage fs hfs
  · simp only [Row.servedBy] at hserved
    split at hserved
    · obtain ⟨identity,hidentity,rfl⟩ := map_ok.mp hserved
      cases hs
      exact servedIdentity_clean (finite_fields (hdata.get _)) hidentity
    · cases hserved
      exact h.served s hs

theorem Scan.row_clean (h : sc.Clean) : sc.row.Clean := by
  rw [Scan.row]
  cases hrow : sc.attempts.get? sc.current with
  | none => exact ⟨rfl,fun j hj => (by cases hj),fun fs hfs => (by cases hfs),fun s hs => (by cases hs)⟩
  | some row => exact h.rows _ row hrow

variable {number : ℕ}

theorem rows_set {attempts : Dict ℕ Row} (h : ∀ k, ∀ row ∈ attempts.get? k, row.Clean) (hrow : row.Clean) :
    ∀ k, ∀ row' ∈ (attempts.set number row).get? k, row'.Clean := by
  intro k row' hk
  rw [Dict.get?_set] at hk
  split at hk
  · cases hk
    exact hrow
  · exact h k row' hk

theorem Scan.next_clean (h : sc.Clean) (hdata : Finite e.data) (hnext : sc.next env e = .ok sc') : sc'.Clean := by
  have hrow : ∀ number, ({sc with current := number} : Scan).row.Clean := fun number => Scan.row_clean ⟨h.rows,h.pending⟩
  have htouched : ∀ number, let touched := ({sc with current := number} : Scan).row.touch env e sc.pending
      touched.1.Clean ∧ Finite touched.2.probes := fun number => Row.touch_clean (hrow number) h.pending
  simp only [Scan.next] at hnext
  split at hnext
  · cases hnext
    obtain ⟨htouch,hpending⟩ := htouched _
    exact ⟨rows_set h.rows htouch,hpending⟩
  · obtain ⟨row,hfinish,rfl⟩ := map_ok.mp hnext
    obtain ⟨htouch,hpending⟩ := htouched _
    exact ⟨rows_set h.rows (Row.finish_clean htouch hdata hfinish),hpending⟩
  · cases hnext
    obtain ⟨htouch,hpending⟩ := htouched _
    exact ⟨rows_set h.rows ⟨htouch.probes,htouch.duration,htouch.usage,htouch.served⟩,hpending⟩
  · cases hnext
    refine ⟨h.rows,?_⟩
    dsimp only
    split
    · exact (probesOf_clean finite_nil).put rfl
    · exact probesOf_clean finite_nil
  · cases hnext
    exact ⟨h.rows,h.pending⟩
  · cases hnext
    exact ⟨h.rows,h.pending⟩
  · cases hnext
    exact h

variable {key : String}

theorem finite_field {j : Option Json} (h : ∀ x ∈ j, x.hasNan = false) : Finite (field key j) := by
  cases j with
  | none => rfl
  | some x => exact finite_cons.mpr ⟨h x rfl,rfl⟩

theorem finite_text {s : Option String} : Finite (field key (s.map .str)) := by
  cases s <;> rfl

theorem Row.json_finite (h : row.Clean) : Finite row.json := by
  have husage : Finite (field "usage" (row.usage.map .obj)) := by
    refine finite_field fun j hj => ?_
    obtain ⟨fs,hfs,rfl⟩ := Option.map_eq_some_iff.mp hj
    exact (hasNan_obj fs).mpr (h.usage fs hfs)
  have hserved : Finite (field "served_identity" (row.served.map fun s => .obj s.1)) := by
    refine finite_field fun j hj => ?_
    obtain ⟨s,hs,rfl⟩ := Option.map_eq_some_iff.mp hj
    exact (hasNan_obj s.1).mpr (h.served s hs)
  have hterminal : ∀ key, ∀ f : Terminal → Json, (∀ t, (f t).hasNan = false) → Finite (field key (row.terminal.map f)) := by
    intro key f hf
    refine finite_field fun j hj => ?_
    obtain ⟨t,_,rfl⟩ := Option.map_eq_some_iff.mp hj
    exact hf t
  have hmodel : ∀ t : Terminal, ((t.executedModel.map Json.str).getD .null).hasNan = false := by
    intro t
    cases t.executedModel <;> rfl
  simp only [Row.json,finite_append,finite_field h.duration,husage,finite_text,hserved,h.probes,
    hterminal _ _ hmodel,and_true]
  exact ⟨⟨rfl,hterminal _ _ fun t => rfl⟩,rfl⟩

structure NodeRecord.Clean (r : NodeRecord) : Prop where
  attempts : ∀ row ∈ r.attempts, row.Clean
  validatedBy : ∀ e ∈ r.validatedBy, Finite e.data

theorem Scan.abandon_clean {state : String} (h : row.Clean) : (sc.abandon state number row).Clean := by
  simp only [Scan.abandon]
  split
  · exact ⟨h.probes,h.duration,h.usage,h.served⟩
  · exact h

variable {r : NodeRecord}

theorem nodeRecord_clean {n : WorkNode} {events : List RunEvent} (hevents : ∀ e ∈ events, Finite e.data)
    (h : nodeRecord env n events = .ok r) : r.Clean := by
  obtain ⟨sc,hsc,rfl⟩ := map_ok.mp h
  have hstart : ({} : Scan).Clean := ⟨fun k row hrow => (by cases hrow),rfl⟩
  have hclean : sc.Clean := foldlM_preserves (fun c e c' he hc hnext => Scan.next_clean hc (hevents e he) hnext) hstart hsc
  refine ⟨fun row hrow => ?_,fun e he => ?_⟩
  · obtain ⟨entry,hentry,rfl⟩ := mem_map.mp hrow
    rw [List.mem_insertionSort] at hentry
    exact Scan.abandon_clean (hclean.rows entry.1 entry.2 ((Dict.mem_entries_iff _ _ _).mp hentry))
  · simp only [validatedBy] at he
    split at he
    · cases he
    · exact hevents e (mem_of_mem_filter he)

theorem NodeRecord.json_finite (h : r.Clean) : Finite r.json := by
  have hpassed : ∀ e ∈ r.validatedBy, (((e.data.lookup "command").getD (.str "") : Json)).hasNan = false := by
    intro e he
    cases hl : e.data.lookup "command" with
    | none => rfl
    | some j => exact finite_iff.mp (h.validatedBy e he) _ (Dict.lookup_some_mem hl)
  simp only [NodeRecord.json,finite_append,finite_cons,finite_nil,and_true,hasNan_arr,mem_map]
  refine ⟨⟨rfl,rfl,rfl,?_,?_⟩,?_⟩
  · rintro _ ⟨row,hrow,rfl⟩
    exact (hasNan_obj _).mpr (Row.json_finite (h.attempts row hrow))
  · rintro _ ⟨e,he,rfl⟩
    rw [hasNan_obj]
    simp only [finite_cons,finite_nil,and_true]
    exact ⟨hpassed e he,(h.validatedBy e he).get _,rfl⟩
  · refine finite_field (fun j hj => ?_)
    obtain ⟨c,_,hc⟩ := Option.bind_eq_some_iff.mp hj
    split at hc
    · cases hc
      rfl
    · cases hc

section
variable {events : List RunEvent} {d : RunDir}

theorem freeForm_finite {head : RunEvent → Fields} {types : List EventType} (hhead : ∀ e, Finite (head e))
    (hevents : ∀ e ∈ events, Finite e.data) : ∀ j ∈ freeForm head types events, j.hasNan = false := by
  intro j hj
  obtain ⟨e,he,rfl⟩ := mem_map.mp hj
  exact (hasNan_obj _).mpr ((hhead e).update (hevents e (mem_of_mem_filter he)))

theorem withNode_finite (e : RunEvent) : Finite (withNode e) := rfl

theorem withoutNode_finite (e : RunEvent) : Finite (withoutNode e) := rfl

theorem integration_finite (plan : Option Plan) : Finite (integration env plan events) := by
  simp only [integration,finite_cons,finite_nil,and_true,hasNan_arr,mem_map]
  refine ⟨rfl,?_,?_⟩
  · rintro _ ⟨b,_,rfl⟩
    rfl
  · rintro _ ⟨name,_,rfl⟩
    rfl

variable {review : Fields}

theorem reviewBlock_finite (hevents : ∀ e ∈ events, Finite e.data)
    (h : reviewBlock env d events = .ok review) : Finite review := by
  have hextra : Finite (if (reviewAttempts events).isEmpty = true then []
      else [("attempts",Json.arr (reviewAttempts events))]) := by
    split
    · rfl
    · refine finite_cons.mpr ⟨(hasNan_arr _).mpr fun j hj => ?_,rfl⟩
      obtain ⟨e,he,rfl⟩ := mem_map.mp hj
      refine (hasNan_obj _).mpr (finite_iff.mpr fun f hf => ?_)
      obtain ⟨key,_,rfl⟩ := mem_map.mp (mem_of_mem_filter hf)
      exact (hevents e (mem_of_mem_filter he)).get key
  simp only [reviewBlock] at h
  obtain ⟨source,-,h⟩ := bind_ok.mp h
  cases source with
  | none =>
    cases h
    exact finite_append.mpr ⟨rfl,hextra⟩
  | some source =>
    obtain ⟨blocking,-,h⟩ := bind_ok.mp h
    cases h
    exact finite_append.mpr ⟨rfl,hextra⟩

theorem openspecBlock_finite {j : Json} (hevents : ∀ e ∈ events, Finite e.data) (hj : j.hasNan = false) :
    (openspecBlock events j).hasNan = false := by
  cases j with
  | obj block =>
    refine (hasNan_obj _).mpr (((hasNan_obj _).mp hj).put ?_)
    cases hlast : (events.filter fun e => decide (e.type = .openspecConformance)).getLast? with
    | none => rfl
    | some e => exact (hevents e (mem_of_mem_filter (List.mem_of_getLast? hlast))).get _
  | _ => exact hj

theorem producer_finite {started : Option RunEvent} {producer : Fields} (hstarted : ∀ e ∈ started, Finite e.data)
    (h : producerFromStarted started = some producer) : Finite producer := by
  obtain ⟨e,he,h⟩ := Option.bind_eq_some_iff.mp h
  have hraw := (hstarted e he).get "producer"
  split at h
  · rename_i raw hproducer
    cases h
    rw [hproducer,hasNan_obj] at hraw
    simp only [finite_cons,finite_nil,and_true]
    exact ⟨hraw.get _,hraw.get _,hraw.get _⟩
  · cases h

/-- What the receipt copies has no NaN when the log and the `openspec` object have none. -/
theorem receiptBody_finite {graph : GraphFile} {plan : Option Plan} {digest : String} {nodes : List NodeRecord}
    (hevents : ∀ e ∈ events, Finite e.data) (hopenspec : ∀ j ∈ graph.openspec, j.hasNan = false)
    (hnodes : ∀ n ∈ nodes, n.Clean) (hreview : Finite review) :
    Finite (receiptBody env d graph plan digest events nodes review) := by
  have hstarted : ∀ e ∈ events.find? (fun e => decide (e.type = .runStarted)), Finite e.data :=
    fun e he => hevents e (List.mem_of_find?_eq_some he)
  have hfree : ∀ types, (Json.arr (freeForm withNode types events)).hasNan = false :=
    fun types => (hasNan_arr _).mpr (freeForm_finite withNode_finite hevents)
  have hplanner : ∀ types, (Json.arr (freeForm withoutNode types events)).hasNan = false :=
    fun types => (hasNan_arr _).mpr (freeForm_finite withoutNode_finite hevents)
  have htext : ∀ {α : Type} (o : Option α) (f : α → String), ((o.map fun a => Json.str (f a)).getD .null).hasNan = false := by
    intro α o f
    cases o <;> rfl
  simp only [receiptBody,finite_append]
  refine ⟨⟨⟨⟨⟨⟨⟨?_,?_⟩,?_⟩,?_⟩,?_⟩,?_⟩,?_⟩,?_⟩
  · simp only [finite_cons,finite_nil,and_true,htext,hasNan_obj,hfree,hplanner,hreview,integration_finite,true_and]
    refine ⟨rfl,rfl,rfl,?_,⟨rfl,rfl,rfl,rfl,rfl⟩,?_,rfl,rfl,rfl⟩
    · refine (hasNan_arr _).mpr (fun j hj => ?_)
      obtain ⟨n,hn,rfl⟩ := mem_map.mp hj
      exact (hasNan_obj _).mpr (NodeRecord.json_finite (hnodes n hn))
    · split
      · rfl
      · exact hfree _
  · split
    · rfl
    · rfl
  · split
    · rename_i budget hbudget
      obtain ⟨e,he,hget⟩ := Option.map_eq_some_iff.mp hbudget
      have hfinite := (hstarted e he).get "retry_budget"
      rw [hget] at hfinite
      exact finite_cons.mpr ⟨hfinite,rfl⟩
    · rfl
  · refine finite_field (fun j hj => ?_)
    obtain ⟨producer,hproducer,rfl⟩ := Option.map_eq_some_iff.mp hj
    exact (hasNan_obj _).mpr (producer_finite hstarted hproducer)
  · split
    · rfl
    · simp only [finite_cons,finite_nil,and_true,hfree]
  · split
    · rfl
    · refine finite_cons.mpr ⟨(hasNan_arr _).mpr fun j hj => ?_,rfl⟩
      obtain ⟨i,_,rfl⟩ := mem_map.mp hj
      rfl
  · split <;> rfl
  · refine finite_field (fun j hj => ?_)
    obtain ⟨block,hblock,rfl⟩ := Option.map_eq_some_iff.mp hj
    exact openspecBlock_finite hevents (hopenspec block hblock)

theorem readLines_mem {last : ℕ} {lines : List Line} (h : readLines last lines = .ok events) :
    ∀ e ∈ events, Line.event e ∈ lines := by
  induction lines generalizing last events with
  | nil =>
    cases h
    exact fun e he => absurd he List.not_mem_nil
  | cons line lines ih =>
    cases line with
    | blank => exact fun e he => List.mem_cons_of_mem _ (ih h e he)
    | corrupt => cases h
    | event e' =>
      simp only [readLines] at h
      split at h
      · cases h
      · obtain ⟨rest,hrest,rfl⟩ := map_ok.mp h
        intro e he
        rcases List.mem_cons.mp he with rfl | he
        · exact List.mem_cons_self
        · exact List.mem_cons_of_mem _ (ih hrest e he)

end
structure RunDir.Clean (d : RunDir) : Prop where
  events : ∀ file ∈ d.events, ∀ e, .event e ∈ file.lines → Json.Finite e.data
  openspec : ∀ g, d.graph = some (.ok g) → ∀ j ∈ g.openspec, j.hasNan = false

theorem buildRunReceipt_finite {sha256 : EventsFile → String} {d : RunDir} {receipt : Fields} (hd : d.Clean)
    (h : buildRunReceipt env sha256 d = .ok receipt) : Finite receipt := by
  simp only [buildRunReceipt] at h
  obtain ⟨file,hfile,h⟩ := bind_ok.mp h
  obtain ⟨events,hread,h⟩ := bind_ok.mp h
  obtain ⟨graph,hgraph,h⟩ := bind_ok.mp h
  obtain ⟨plan,-,h⟩ := bind_ok.mp h
  have hevents : ∀ e ∈ events, Finite e.data := by
    intro e he
    simp only [RunDir.eventsFile] at hfile
    split at hfile
    · rename_i file' hsome
      cases hfile
      exact hd.events file' hsome e (readLines_mem hread e he)
    · cases hfile
  have hopenspec : ∀ j ∈ graph.openspec, j.hasNan = false := by
    rw [RunDir.graphFile] at hgraph
    cases hloaded : d.graph with
    | none =>
      rw [hloaded] at hgraph
      cases hgraph
      exact fun j hj => by cases hj
    | some loaded =>
      rw [hloaded] at hgraph
      exact hd.openspec graph (hgraph ▸ hloaded)
  split at h
  · cases h
  · obtain ⟨nodes,hnodes,h⟩ := bind_ok.mp h
    obtain ⟨review,hreview,h⟩ := bind_ok.mp h
    cases h
    refine finite_append.mpr ⟨receiptBody_finite hevents hopenspec (fun n hn => ?_) (reviewBlock_finite hevents hreview),rfl⟩
    obtain ⟨m,-,hm⟩ := mapM_mem hnodes n hn
    exact nodeRecord_clean (fun e he => hevents e (mem_of_mem_filter he)) hm

end
end Verdict.Evidence
