import Mathlib.Data.List.Chain
import Verdict.Prime.Checkpoint

/-! # Histories of the checkpoint

The file shows only the checkpoint that was accepted last. An issue to which the work returns is
compared with the checkpoint of the other issue in between, and a caller may name fewer completed
issues than the file; a history goes forward exactly when neither happens.
-/
namespace Verdict.Prime
open Json

/-- A call of `write_checkpoint`, at some time. -/
structure Call where
  checkpoint : Fields
  updatedAt : String

/-- The accepted checkpoints as they are read back, the last one first; the file holds that one. -/
abbrev History := List Checkpoint

def next (history : History) (call : Call) : History :=
  match h : writeCheckpoint history.head? call.checkpoint call.updatedAt with
  | .ok fields => ⟨canonFields fields,written_valid h⟩ :: history
  | .error _ => history

def run (calls : List Call) : History := calls.foldl next []

def completed (c : Fields) : List Json := (get c "completed_issues").items

def Lists (issue : Json) (issues : List Json) : Prop := ∃ other ∈ issues, canon other = canon issue ∨ pyEq issue other = true

/-- No checkpoint of an issue falls behind an earlier one, and no completed issue is lost. -/
structure Forward (history : History) : Prop where
  ordered : history.Pairwise fun later earlier => sameIssue earlier.fields later.fields = true →
    rank (get earlier.fields "state") ≤ rank (get later.fields "state")
  kept : history.IsChain fun later earlier => ∀ issue ∈ completed earlier.fields, Lists issue (completed later.fields)

/-- A call that is accepted returns to an issue no earlier than where it was left, and names the
completed issues when the file is about the same issue. -/
def Careful (history : History) (c : Fields) : Prop := Valid c → Ahead history.head? c →
  ((∀ previous ∈ history.head?, sameIssue previous.fields c = false) →
    ∀ earlier ∈ history, sameIssue earlier.fields c = true → rank (get earlier.fields "state") ≤ rank (get c "state")) ∧
  (∀ previous ∈ history.head?, sameIssue previous.fields c = true →
    ∀ issue ∈ completed previous.fields, Lists issue (completed c))

/-! ### One call -/

section
variable {history : History} {call : Call} {c : Fields}

theorem next_cases (history : History) (call : Call) :
    (¬(Valid call.checkpoint ∧ Ahead history.head? call.checkpoint) ∧ next history call = history) ∨
    ((Valid call.checkpoint ∧ Ahead history.head? call.checkpoint) ∧ ∃ new : Checkpoint, next history call = new :: history ∧
      new.fields = canonFields (Dict.put "updated_at" (.str call.updatedAt) (followUp history.head? call.checkpoint))) := by
  rw [next]
  split
  · rename_i fields h
    obtain ⟨hvalid,hahead,rfl⟩ := writeCheckpoint_ok.mp h
    exact .inr ⟨⟨hvalid,hahead⟩,_,rfl,rfl⟩
  · rename_i e h
    refine .inl ⟨?_,rfl⟩
    rintro ⟨hvalid,hahead⟩
    rw [writeCheckpoint_ok.mpr ⟨hvalid,hahead,rfl⟩] at h
    cases h

theorem sameIssue_trans {a b c : Fields} (ha : sameIssue a c = true) (hb : sameIssue b c = true) : sameIssue a b = true := by
  rw [sameIssue,pyEq,Bool.and_eq_true,decide_eq_true_eq] at ha hb ⊢
  exact ⟨ha.1,ha.2.trans hb.2.symm⟩

theorem lists_map_canon {issue : Json} {issues : List Json} : Lists issue (issues.map canon) ↔ Lists issue issues := by
  simp only [Lists,List.mem_map,exists_exists_and_eq_and,canon_canon,pyEq_canon_right]

section
variable {new : Checkpoint} {t : String}
  (hnew : new.fields = canonFields (Dict.put "updated_at" (.str t) (followUp history.head? c)))
include hnew

theorem sameIssue_written (a : Fields) : sameIssue a new.fields = sameIssue a c := by
  rw [sameIssue,sameIssue,hnew,get_canonFields,pyEq_canon_right,get_written (by decide) (by decide)]

theorem rank_written : rank (get new.fields "state") = rank (get c "state") := by
  rw [hnew,get_canonFields,rank_canon,get_written (by decide) (by decide)]

theorem completed_written : completed new.fields = (completed (followUp history.head? c)).map canon := by
  rw [completed,hnew,get_canonFields,items_canon,get_put,if_neg (by decide),completed]

theorem ordered_written (hahead : Ahead history.head? c) (h : Forward history) :
    (∀ earlier ∈ history, sameIssue earlier.fields new.fields = true →
      rank (get earlier.fields "state") ≤ rank (get new.fields "state")) ↔
    ((∀ previous ∈ history.head?, sameIssue previous.fields c = false) →
      ∀ earlier ∈ history, sameIssue earlier.fields c = true → rank (get earlier.fields "state") ≤ rank (get c "state")) := by
  simp only [sameIssue_written hnew,rank_written hnew]
  refine ⟨fun hall _ => hall,fun hreturn earlier hmem hsame => ?_⟩
  cases history with
  | nil => cases hmem
  | cons previous rest =>
    cases hprevious : sameIssue previous.fields c with
    | false =>
      refine hreturn (fun p hp => ?_) earlier hmem hsame
      rw [← Option.some.inj hp]
      exact hprevious
    | true =>
      have hlast : rank (get previous.fields "state") ≤ rank (get c "state") := hahead previous rfl hprevious
      rcases List.mem_cons.mp hmem with rfl | hrest
      · exact hlast
      · exact ((List.pairwise_cons.mp h.ordered).1 earlier hrest (sameIssue_trans hsame hprevious)).trans hlast

theorem kept_written : (∀ previous ∈ history.head?, ∀ issue ∈ completed previous.fields, Lists issue (completed new.fields)) ↔
    ∀ previous ∈ history.head?, sameIssue previous.fields c = true →
      ∀ issue ∈ completed previous.fields, Lists issue (completed c) := by
  rw [completed_written hnew]
  simp only [lists_map_canon]
  refine forall₂_congr fun previous hprevious => ?_
  have hhead : history.head? = some previous := hprevious
  rw [hhead,followUp]
  cases hsame : sameIssue previous.fields c with
  | true => exact ⟨fun h _ => h,fun h => h rfl⟩
  | false =>
    refine iff_of_true (fun issue hissue => ?_) fun h => absurd h Bool.false_ne_true
    have hcarried : issue ∈ carriedOver previous.fields := by
      rw [carriedOver]
      split
      · exact List.mem_append_left _ hissue
      · exact hissue
    refine ⟨issue,?_,.inl rfl⟩
    rw [if_neg Bool.false_ne_true,completed,get_put,if_pos rfl]
    exact hcarried

end

theorem forward_next (h : Forward history) : Forward (next history call) ↔ Careful history call.checkpoint := by
  rcases next_cases history call with ⟨hrefused,hsame⟩ | ⟨⟨hvalid,hahead⟩,new,hnext,hnew⟩
  · rw [hsame]
    exact iff_of_true h fun hvalid hahead => absurd ⟨hvalid,hahead⟩ hrefused
  · rw [hnext,Careful,← ordered_written hnew hahead h,← kept_written hnew]
    constructor
    · intro hforward _ _
      exact ⟨(List.pairwise_cons.mp hforward.ordered).1,(List.isChain_cons.mp hforward.kept).1⟩
    · intro hcareful
      obtain ⟨hordered,hkept⟩ := hcareful hvalid hahead
      exact ⟨List.pairwise_cons.mpr ⟨hordered,h.ordered⟩,List.isChain_cons.mpr ⟨hkept,h.kept⟩⟩

theorem forward_of_next (h : Forward (next history call)) : Forward history := by
  rcases next_cases history call with ⟨_,hsame⟩ | ⟨_,new,hnext,_⟩
  · rwa [hsame] at h
  · rw [hnext] at h
    exact ⟨(List.pairwise_cons.mp h.ordered).2,(List.isChain_cons.mp h.kept).2⟩

end

/-! ### Sequences of calls -/

theorem forward_of_calls {history : History} {calls : List Call} (h : Forward (calls.foldl next history)) : Forward history := by
  induction calls generalizing history with
  | nil => exact h
  | cons call calls ih => exact forward_of_next (ih h)

theorem forward_calls {history : History} (h : Forward history) (calls : List Call) : Forward (calls.foldl next history) ↔
    Run.AllSteps (fun s call => some (next s call)) (fun s call => Careful s call.checkpoint) history calls := by
  induction calls generalizing history with
  | nil => exact iff_of_true h trivial
  | cons call calls ih =>
    rw [List.foldl_cons,Run.allSteps_cons_some rfl,← forward_next h]
    constructor
    · intro hall
      have hnext := forward_of_calls hall
      exact ⟨hnext,(ih hnext).mp hall⟩
    · rintro ⟨hnext,hrest⟩
      exact (ih hnext).mpr hrest

/-- The checkpoints of a sequence of calls go forward exactly when every call is careful; a refused
call leaves the file as it is. -/
theorem checkpoints_forward (calls : List Call) :
    (Forward (run calls) ∧ ∀ before call after, calls = before ++ call :: after →
      (writeCheckpoint (run before).head? call.checkpoint call.updatedAt).isOk = false → (run (before ++ [call])).head? = (run before).head?) ↔
    Run.AllSteps (fun s call => some (next s call)) (fun s call => Careful s call.checkpoint) [] calls := by
  have hempty : Forward [] := ⟨List.Pairwise.nil,List.IsChain.nil⟩
  rw [run,forward_calls hempty,and_iff_left_iff_imp]
  rintro - before call after - hrefused
  rw [run,List.foldl_append,List.foldl_cons,List.foldl_nil,← run]
  rcases next_cases (run before) call with ⟨_,hsame⟩ | ⟨⟨hvalid,hahead⟩,_⟩
  · rw [hsame]
  · rw [writeCheckpoint_ok.mpr ⟨hvalid,hahead,rfl⟩] at hrefused
    cases hrefused

/-! ### A return -/

def skeleton (issue state : String) : Fields :=
  CHECKPOINT_FIELDS.map fun key => (key,(([("schema_version",.int 1),("issue",.str issue),("state",.str state),
    ("next_action",.str "resume"),("blockers",.arr []),("completed_issues",.arr [])] : Fields).lookup key).getD .null)

def reopening : List Call :=
  [⟨skeleton "BOD-1" "DONE","t1"⟩,⟨skeleton "BOD-2" "READY","t2"⟩,⟨skeleton "BOD-1" "READY","t3"⟩]

theorem reopened_after_other : ¬∀ calls : List Call, Forward (run calls) := by
  intro hall
  have hordered := (hall reopening).ordered
  have hstates : (run reopening).map (fun c => (get c.fields "issue",get c.fields "state")) =
      [(.str "BOD-1",.str "READY"),(.str "BOD-2",.str "READY"),(.str "BOD-1",.str "DONE")] := by decide +kernel
  generalize run reopening = history at hordered hstates
  obtain ⟨last,history,rfl,hlast,hstates⟩ := List.map_eq_cons_iff.mp hstates
  obtain ⟨other,history,rfl,-,hstates⟩ := List.map_eq_cons_iff.mp hstates
  obtain ⟨first,history,rfl,hfirst,-⟩ := List.map_eq_cons_iff.mp hstates
  obtain ⟨hissue,hstate⟩ := Prod.mk.inj hlast
  obtain ⟨hissue',hstate'⟩ := Prod.mk.inj hfirst
  have hle := (List.pairwise_cons.mp hordered).1 first (by simp) (by rw [sameIssue,hissue,hissue']; decide +kernel)
  rw [hstate,hstate'] at hle
  exact absurd hle (by decide)

end Verdict.Prime
