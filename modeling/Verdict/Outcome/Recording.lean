import Verdict.Outcome.AttemptLedger

/-! # Every attempt is kept once

The file of a careful run is the lines of the records written so far and the torn end of at
most one more. What can be read from it are those records, so that the keys found by a later
call are exactly theirs.
-/
namespace Verdict.Outcome
open Json Run
open AttemptRecord (key row toDict)
open List (all_eq_true append_assoc append_nil count_eq_zero flatMap_cons forall_mem_cons
  map_append map_cons mem_append mem_cons_self mem_filter mem_map mem_singleton nil_append
  nil_prefix not_mem_nil prefix_append)
open Utf8 (decode decode_encode encode)
variable {t : JsonText.Library}

/-! ### Records and their rows -/

theorem text_canon (o : Option String) : canon (AttemptRecord.text o) = AttemptRecord.text o := by
  cases o <;> rfl

theorem row_eq (r : AttemptRecord) : r.row = .obj (canonFields r.toDict) := by rw [row,canon]

variable {r : AttemptRecord}

theorem get_row {name : String} {o : Option String}
    (h : r.toDict.lookup name = some (AttemptRecord.text o)) : get (fields r.row) name = AttemptRecord.text o := by
  rw [row_eq,fields,Json.get,lookup_canonFields,h,Option.map_some,text_canon,Option.getD_some]

theorem get_kind (r : AttemptRecord) : get r.row.fields "record_kind" = AttemptRecord.text r.recordKind :=
  get_row (by simp [toDict,Dict.lookup_cons_ite])

theorem rowKey_row (r : AttemptRecord) : rowKey r.row = some r.key := by
  have hrun : get r.row.fields "run_id" = AttemptRecord.text r.runId := get_row (by simp [toDict,Dict.lookup_cons_ite])
  have hnode : get r.row.fields "node_id" = AttemptRecord.text r.nodeId := get_row (by simp [toDict,Dict.lookup_cons_ite])
  have hattempt : get r.row.fields "attempt_id" = AttemptRecord.text r.attemptId :=
    get_row (by simp [toDict,Dict.lookup_cons_ite])
  have hrequest : get r.row.fields "request_id" = AttemptRecord.text r.requestId :=
    get_row (by simp [toDict,Dict.lookup_cons_ite])
  have hdigest : get r.row.fields "checker_digest" = AttemptRecord.text r.checkerDigest :=
    get_row (by simp [toDict,Dict.lookup_cons_ite])
  have hfields : rowKey r.row = some (keyFields.map (get r.row.fields)) := by rw [row_eq,rowKey,fields]
  rw [hfields]
  simp only [keyFields,map_cons,List.map_nil,hrun,hnode,hattempt,hrequest,get_kind,hdigest,key]

theorem row_kind (r : AttemptRecord) : (get r.row.fields "record_kind").truthy = decide r.HasKind := by
  rw [get_kind]
  exact (Bool.decide_eq_true).symm

theorem hasKind_of_key {a b : AttemptRecord} (h : a.key = b.key) (ha : a.HasKind) : b.HasKind := by
  have hkind : a.key[4]? = b.key[4]? := by rw [h]
  have hsame : AttemptRecord.text a.recordKind = AttemptRecord.text b.recordKind := Option.some.inj hkind
  rw [AttemptRecord.HasKind,← hsame]
  exact ha

theorem key_hashable (r : AttemptRecord) : r.key.all hashable = true := by
  rw [all_eq_true]
  intro j hj
  obtain ⟨o,_,rfl⟩ := mem_map.mp hj
  cases o <;> rfl

theorem rowKeys_rows (kept : List AttemptRecord) :
    rowKeys (kept.map row) = (kept.filter (·.HasKind)).map key := by
  induction kept with
  | nil => rfl
  | cons r kept ih =>
    rw [rowKeys,map_cons,List.filter_cons,row_kind,List.filter_cons]
    by_cases h : decide r.HasKind = true
    · rw [if_pos h,if_pos h,List.filterMap_cons_some (rowKey_row r),map_cons,← ih]
      rfl
    · rw [if_neg h,if_neg h,← ih]
      rfl

theorem filterMap_rowKey (kept : List AttemptRecord) :
    (kept.map row).filterMap rowKey = kept.map key := by
  induction kept with
  | nil => rfl
  | cons r kept ih => rw [map_cons,List.filterMap_cons_some (rowKey_row r),ih,map_cons]

/-! ### Lines -/

variable {cs : List Char}

theorem universalNewlines_of_no_return (h : '\r' ∉ cs) : universalNewlines cs = cs := by
  induction cs with
  | nil => rfl
  | cons c cs ih =>
    obtain ⟨hc,hcs⟩ := List.ne_and_not_mem_of_not_mem_cons h
    rw [universalNewlines,ih hcs]
    · rintro ds rfl
      exact absurd rfl hc
    · rintro rfl
      exact absurd rfl hc

variable {cur l : List Char}

theorem splitLines_line {rest : List Char} (h : '\n' ∉ l) :
    splitLines cur (l ++ '\n' :: rest) = (cur ++ l) :: splitLines [] rest := by
  induction l generalizing cur with
  | nil => rw [nil_append,splitLines,if_pos rfl,append_nil]
  | cons c l ih =>
    obtain ⟨hc,hl⟩ := List.ne_and_not_mem_of_not_mem_cons h
    rw [List.cons_append,splitLines,if_neg fun he => hc he.symm,ih hl,append_assoc]
    rfl

theorem splitLines_tail (h : '\n' ∉ l) :
    splitLines cur l = if cur ++ l = [] then [] else [cur ++ l] := by
  induction l generalizing cur with
  | nil => rw [splitLines,append_nil]
  | cons c l ih =>
    obtain ⟨hc,hl⟩ := List.ne_and_not_mem_of_not_mem_cons h
    rw [splitLines,if_neg fun he => hc he.symm,ih hl,append_assoc]
    rfl

/-- The end of the file after its last newline, and the record in it if it can be read. -/
inductive Tail (t : JsonText.Library) : List Char → List AttemptRecord → Prop
  | clean : Tail t [] []
  | torn (r : AttemptRecord) (cs : List Char) (hr : Printed t r) (hcut : cs <+: t.dumps r.row)
      (hshort : cs ≠ t.dumps r.row) : Tail t cs []
  | unended (r : AttemptRecord) (hr : Printed t r) : Tail t (t.dumps r.row) [r]

theorem Printed.no_newline (h : Printed t r) : '\n' ∉ t.dumps r.row := fun hmem => (h.oneLine _ hmem).1 rfl

theorem Printed.no_return (h : Printed t r) : '\r' ∉ t.dumps r.row := fun hmem => (h.oneLine _ hmem).2 rfl

variable {last : List AttemptRecord}

theorem Tail.plain (h : Tail t cs last) : ∀ c ∈ cs, c ≠ '\n' ∧ c ≠ '\r' := by
  cases h with
  | clean => exact fun _ hc => absurd hc not_mem_nil
  | torn r cs hr hcut _ => exact fun c hc => hr.oneLine c (hcut.subset hc)
  | unended r hr => exact hr.oneLine

theorem Tail.rows (h : Tail t cs last) :
    (splitLines [] cs).filterMap t.read = last.map row := by
  have hplain : '\n' ∉ cs := fun hc => (h.plain _ hc).1 rfl
  rw [splitLines_tail hplain,nil_append]
  cases h with
  | clean => rfl
  | torn r cs hr hcut hshort =>
    split
    · rfl
    · rw [List.filterMap_cons_none (hr.whole cs hcut hshort)]
      rfl
  | unended r hr =>
    split
    · next hempty => exact absurd hempty hr.nonempty
    · rw [List.filterMap_cons_some hr.loads]
      rfl

/-! ### The file of a careful run -/

def Holds (t : JsonText.Library) (kept : List AttemptRecord) (text : List Char) : Prop :=
  ∃ lines tail last, (∀ r ∈ lines, Printed t r) ∧ Tail t tail last ∧ kept = lines ++ last ∧
    text = lines.flatMap (line t) ++ tail

theorem line_rows (hr : Printed t r) (rest : List Char) :
    (splitLines [] (line t r ++ rest)).filterMap t.read = r.row :: (splitLines [] rest).filterMap t.read := by
  rw [line,append_assoc,List.singleton_append,splitLines_line hr.no_newline,nil_append,
    List.filterMap_cons_some hr.loads]

theorem Holds.no_return {kept : List AttemptRecord} {text : List Char} (h : Holds t kept text) : '\r' ∉ text := by
  obtain ⟨lines,tail,last,hlines,htail,-,rfl⟩ := h
  intro hmem
  rcases mem_append.mp hmem with hmem | hmem
  · obtain ⟨r,hr,hc⟩ := List.mem_flatMap.mp hmem
    rcases mem_append.mp hc with hc | hc
    · exact (hlines r hr).no_return hc
    · exact absurd (mem_singleton.mp hc) (by decide)
  · exact (htail.plain _ hmem).2 rfl

theorem Holds.rows {kept : List AttemptRecord} {text : List Char} (h : Holds t kept text) :
    rowsOf t text = kept.map row := by
  rw [rowsOf,universalNewlines_of_no_return h.no_return]
  obtain ⟨lines,tail,last,hlines,htail,rfl,rfl⟩ := h
  induction lines with
  | nil => exact htail.rows
  | cons r lines ih =>
    obtain ⟨hr,hlines⟩ := forall_mem_cons.mp hlines
    rw [flatMap_cons,append_assoc,line_rows hr,ih hlines,List.cons_append,map_cons]

variable {new : List AttemptRecord}

theorem cut_lines (hnew : ∀ r ∈ new, Printed t r) {text : List Char}
    (h : text <+: new.flatMap (line t)) : ∃ wrote, wrote <+: new ∧ Holds t wrote text := by
  induction new generalizing text with
  | nil =>
    rw [List.flatMap_nil,List.prefix_nil] at h
    exact ⟨[], nil_prefix,[],[],[],fun _ hr => absurd hr not_mem_nil,.clean,rfl,h⟩
  | cons r new ih =>
    obtain ⟨hr,hnew⟩ := forall_mem_cons.mp hnew
    rw [flatMap_cons] at h
    rcases List.prefix_or_prefix_of_prefix h (prefix_append (line t r) _) with hshort | hlong
    · rcases List.prefix_concat_iff.mp hshort with heq | hcut
      · exact ⟨[r],by simp,[r],[],[],by simpa using hr,.clean,rfl,by simpa [line] using heq⟩
      · by_cases hwhole : text = t.dumps r.row
        · exact ⟨[r],by simp,[],t.dumps r.row,[r],by simp,.unended r hr,rfl,by simpa using hwhole⟩
        · exact ⟨[], nil_prefix,[],text,[],by simp,.torn r text hr hcut hwhole,rfl,rfl⟩
    · obtain ⟨rest,rfl⟩ := hlong
      obtain ⟨wrote,hwrote,lines,tail,last,hlines,htail,rfl,rfl⟩ := ih hnew ((List.prefix_append_right_inj _).mp h)
      exact ⟨r :: (lines ++ last),List.cons_prefix_cons.mpr ⟨rfl,hwrote⟩,r :: lines,tail,last,
        forall_mem_cons.mpr ⟨hr,hlines⟩,htail,rfl,by rw [flatMap_cons,append_assoc]⟩

theorem Holds.append {kept wrote : List AttemptRecord} {text more : List Char} (h : Holds t kept text)
    (hend : ∀ c, text.getLast? = some c → c = '\n') (hmore : Holds t wrote more) : Holds t (kept ++ wrote) (text ++ more) := by
  obtain ⟨lines,tail,last,hlines,htail,rfl,rfl⟩ := h
  obtain ⟨lines',tail',last',hlines',htail',rfl,rfl⟩ := hmore
  have hempty : tail = [] := by
    rcases List.eq_nil_or_concat tail with hnil | ⟨front,c,rfl⟩
    · exact hnil
    · rw [List.concat_eq_append] at htail hend
      have hc : c = '\n' := hend c (by rw [← append_assoc,List.getLast?_concat])
      exact absurd hc (htail.plain c (mem_append.mpr (Or.inr (mem_singleton.mpr rfl)))).1
  have hlast : last = [] := by
    cases htail with
    | clean => rfl
    | torn r cs hr hcut hshort => rfl
    | unended r hr => exact absurd hempty hr.nonempty
  refine ⟨lines ++ lines',tail',last',?_,htail',?_,?_⟩
  · intro r hr
    exact (mem_append.mp hr).elim (hlines r) (hlines' r)
  · rw [hlast,append_nil,append_assoc]
  · rw [hempty,append_nil,List.flatMap_append,append_assoc]

/-! ### Bytes -/

theorem fileText_eq {file : List UInt8} {text : List Char} (h : fileText file = some text) :
    decode .start file = some (.start,text) := by
  rw [fileText] at h
  cases hd : decode .start file with
  | none =>
    rw [hd] at h
    cases h
  | some out =>
    obtain ⟨s,cs⟩ := out
    rw [hd] at h
    cases s with
    | start =>
      have he : some (cs ++ []) = some text := h
      rw [append_nil] at he
      rw [Option.some.inj he]
    | inside owed low high bits => cases h

theorem fileText_of {file : List UInt8} {text : List Char} (h : decode .start file = some (.start,text)) :
    fileText file = some text := by
  rw [fileText,h]
  show some (text ++ []) = some text
  rw [append_nil]

theorem fileText_append {a b : List UInt8} {ta tb : List Char} (ha : fileText a = some ta) (hb : fileText b = some tb) :
    fileText (a ++ b) = some (ta ++ tb) := fileText_of (Utf8.decode_append_of (fileText_eq ha) (fileText_eq hb))

theorem fileText_payload (new : List AttemptRecord) : fileText (payload t new) = some (new.flatMap (line t)) :=
  fileText_of (decode_encode _)

theorem surviving_text {cut : Option ℕ} {text : List Char}
    (h : fileText (surviving (payload t new) cut) = some text) :
    text <+: new.flatMap (line t) ∧ (cut = none → text = new.flatMap (line t)) := by
  cases cut with
  | none =>
    have heq : text = new.flatMap (line t) := Option.some.inj (h.symm.trans (fileText_payload new))
    exact ⟨by rw [heq],fun _ => heq⟩
  | some n =>
    refine ⟨?_,fun h => nomatch h⟩
    have hwhole := fileText_eq (fileText_payload (t := t) new)
    rw [← List.take_append_drop n (payload t new)] at hwhole
    obtain ⟨m,ta,tb,ha,-,heq⟩ := Utf8.decode_append.mp hwhole
    have hsame : some (m,ta) = some (Utf8.State.start,text) := ha.symm.trans (fileText_eq h)
    cases hsame
    rw [heq]
    exact prefix_append _ _

/-! ### Calls -/

section
variable {kept : List AttemptRecord} {file : List UInt8} {text : List Char}

theorem storedKeys_of (hfile : fileText file = some text) (h : Holds t kept text) :
    storedKeys t file = kept.map key := by
  rw [storedKeys,hfile,Option.elim_some,h.rows,filterMap_rowKey]

theorem seenKeys_of (hfile : fileText file = some text) (h : Holds t kept text) :
    seenKeys t file = .ok ((kept.filter (·.HasKind)).map key) := by
  have hhash : ((kept.filter (·.HasKind)).map key).all (·.all hashable) = true := by
    rw [List.all_map,all_eq_true]
    exact fun r _ => key_hashable r
  simp only [seenKeys,hfile,h.rows,rowKeys_rows,if_pos hhash]

theorem mem_seen {r : AttemptRecord} (hr : r.HasKind) :
    r.key ∈ (kept.filter (·.HasKind)).map key ↔ r.key ∈ kept.map key := by
  constructor
  · intro h
    obtain ⟨a,ha,hkey⟩ := mem_map.mp h
    exact mem_map.mpr ⟨a,(mem_filter.mp ha).1,hkey⟩
  · intro h
    obtain ⟨a,ha,hkey⟩ := mem_map.mp h
    exact mem_map.mpr ⟨a,mem_filter.mpr ⟨ha,decide_eq_true (hasKind_of_key hkey.symm hr)⟩,hkey⟩

theorem newRecords_of (hfile : fileText file = some text) (h : Holds t kept text) {records : List AttemptRecord}
    (hkinds : ∀ r ∈ records, r.HasKind) :
    newRecords t file records = .ok (records.filter fun r => r.key ∉ kept.map key) := by
  simp only [newRecords,seenKeys_of hfile h]
  congr 1
  refine List.filter_congr fun r hr => ?_
  rw [decide_eq_decide,mem_seen (hkinds r hr)]

end

/-- What is known of a state in a careful run: which records can be read, that the records of
calls that returned are among them, and that only `write_attempt_record` repeats a key. -/
structure Accounted (t : JsonText.Library) (s : State) (kept : List AttemptRecord) : Prop where
  held : ∃ text, fileText s.file = some text ∧ Holds t kept text
  stored : ∀ r ∈ s.returned, r.HasKind ∧ r.key ∈ kept.map key
  single : ∀ k, k ∉ s.written → (kept.map key).count k ≤ 1

theorem accounted_empty : Accounted t {} [] where
  held := ⟨[],rfl,[],[],[],fun _ hr => absurd hr not_mem_nil,.clean,rfl,rfl⟩
  stored := fun _ hr => absurd hr not_mem_nil
  single := fun _ _ => Nat.zero_le _

variable {s : State}

theorem Accounted.keepsRows {kept : List AttemptRecord} (h : Accounted t s kept) : KeepsRows t s := by
  obtain ⟨text,hfile,hheld⟩ := h.held
  have hkeys := storedKeys_of hfile hheld
  constructor
  · rw [hfile]
    rfl
  · intro r hr
    rw [hkeys]
    exact (h.stored r hr).2
  · intro k hk
    rw [hkeys]
    exact h.single k hk
  · intro records hrecords
    rw [newRecords_of hfile hheld fun r hr => (h.stored r (hrecords r hr)).1]
    congr 1
    rw [List.filter_eq_nil_iff]
    intro r hr hnew
    exact of_decide_eq_true hnew (h.stored r (hrecords r hr)).2

theorem Accounted.written {kept : List AttemptRecord} {op : Op} (h : Accounted t s kept)
    (hop : Careful t s op) (hpending : op.pending t s = .ok new) (hprinted : ∀ r ∈ new, Printed t r) :
    ∃ wrote, wrote <+: new ∧ (op.cut = none → wrote = new) ∧
      ∃ text, fileText (appendLines t s op) = some text ∧ Holds t (kept ++ wrote) text := by
  obtain ⟨text,hfile,hheld⟩ := h.held
  have hbytes : appendLines t s op = s.file ++ surviving (payload t new) op.cut := by
    rw [appendLines,hpending]
  obtain ⟨more,hmore⟩ := Option.isSome_iff_exists.mp (hop.characters new hpending)
  have hfile' : fileText (appendLines t s op) = some (text ++ more) := by
    rw [hbytes]
    exact fileText_append hfile hmore
  obtain ⟨hcut,hall⟩ := surviving_text hmore
  by_cases hnil : new = []
  · have hmorenil : more = [] := by
      rw [hnil,List.flatMap_nil,List.prefix_nil] at hcut
      exact hcut
    refine ⟨[], nil_prefix,fun _ => hnil.symm,text,?_,?_⟩
    · rw [hfile',hmorenil,append_nil]
    · rw [append_nil]
      exact hheld
  · have hend := hop.endsLine new hpending hnil text hfile
    by_cases hcrash : op.cut = none
    · have hwhole : Holds t new (new.flatMap (line t)) := ⟨new,[],[],hprinted,.clean,by simp,by simp⟩
      refine ⟨new,List.prefix_rfl,fun _ => rfl,text ++ more,hfile',hheld.append hend ?_⟩
      rw [hall hcrash]
      exact hwhole
    · obtain ⟨wrote,hwrote,hrest⟩ := cut_lines hprinted hcut
      exact ⟨wrote,hwrote,fun hnone => absurd hnone hcrash,text ++ more,hfile',hheld.append hend hrest⟩

theorem count_append_new {ks ls : List (List Json)} {k : List Json} (hold : ks.count k ≤ 1) (hnodup : ls.Nodup)
    (hdisjoint : ∀ l ∈ ls, l ∉ ks) : (ks ++ ls).count k ≤ 1 := by
  rw [List.count_append]
  by_cases hk : k ∈ ls
  · rw [count_eq_zero.mpr (hdisjoint k hk),Nat.zero_add]
    exact List.nodup_iff_count_le_one.mp hnodup k
  · rw [count_eq_zero.mpr hk,Nat.add_zero]
    exact hold

theorem Accounted.step {s : State} {kept : List AttemptRecord} {op : Op} (h : Accounted t s kept) (hop : Careful t s op)
    (hprinted : ∀ r ∈ op.records, Printed t r) : ∃ wrote, Accounted t (step t s op) (kept ++ wrote) := by
  have hgrow : ∀ wrote, ∀ r ∈ s.returned, r.HasKind ∧ r.key ∈ (kept ++ wrote).map key := by
    intro wrote r hr
    obtain ⟨hkind,hkey⟩ := h.stored r hr
    rw [map_append]
    exact ⟨hkind,mem_append.mpr (Or.inl hkey)⟩
  cases op with
  | write r cut =>
    obtain ⟨wrote,hwrote,-,hheld⟩ := h.written hop rfl hprinted
    refine ⟨wrote,hheld,hgrow wrote,?_⟩
    intro k hk
    obtain ⟨hold,hne⟩ : k ∉ s.written ∧ k ≠ r.key :=
      ⟨fun hmem => hk (mem_append.mpr (Or.inl hmem)),
        fun he => hk (mem_append.mpr (Or.inr (mem_singleton.mpr he)))⟩
    have habsent : k ∉ wrote.map key := by
      intro hmem
      obtain ⟨a,ha,hkey⟩ := mem_map.mp hmem
      rw [mem_singleton.mp (hwrote.subset ha)] at hkey
      exact hne hkey.symm
    rw [map_append,List.count_append,count_eq_zero.mpr habsent]
    exact h.single k hold
  | appendNew records cut =>
    obtain ⟨text,hfile,htext⟩ := h.held
    have hkinds := hop.kinds records cut rfl
    have hpending : (Op.appendNew records cut).pending t s =
        .ok (records.filter fun r => r.key ∉ kept.map key) := newRecords_of hfile htext hkinds
    have hfresh : ∀ r ∈ records.filter fun r => r.key ∉ kept.map key,
        r ∈ records ∧ r.key ∉ kept.map key := by
      intro r hr
      obtain ⟨hmem,hnot⟩ := mem_filter.mp hr
      exact ⟨hmem,of_decide_eq_true hnot⟩
    obtain ⟨wrote,hwrote,hall,hheld⟩ := h.written hop hpending fun r hr => hprinted r (hfresh r hr).1
    refine ⟨wrote,hheld,?_,?_⟩
    · intro r hr
      rw [Outcome.step] at hr
      by_cases hreturns : (Op.appendNew records cut).returns t s = true
      · rw [if_pos hreturns] at hr
        rcases mem_append.mp hr with hr | hr
        · exact hgrow wrote r hr
        · refine ⟨hkinds r hr,?_⟩
          have hcut : cut = none := Option.isNone_iff_eq_none.mp (Bool.and_eq_true_iff.mp hreturns).2
          rw [map_append,hall hcut]
          by_cases hkey : r.key ∈ kept.map key
          · exact mem_append.mpr (Or.inl hkey)
          · exact mem_append.mpr (Or.inr (mem_map.mpr ⟨r,mem_filter.mpr ⟨hr,decide_eq_true hkey⟩,rfl⟩))
      · rw [if_neg hreturns] at hr
        exact hgrow wrote r hr
    · intro k hk
      rw [map_append]
      refine count_append_new (h.single k hk) ?_ ?_
      · exact (hop.distinct _ hpending).sublist (hwrote.sublist.map _)
      · intro l hl
        obtain ⟨a,ha,rfl⟩ := mem_map.mp hl
        exact (hfresh a (hwrote.subset ha)).2

theorem Accounted.exec {s' : State} {ops : List Op} {kept : List AttemptRecord} (h : Accounted t s kept)
    (hops : AllSteps (next t) (Careful t) s ops) (hprinted : ∀ op ∈ ops, ∀ r ∈ op.records, Printed t r)
    (hrun : exec (next t) s ops = some s') : ∃ wrote, Accounted t s' (kept ++ wrote) := by
  induction ops generalizing s kept with
  | nil =>
    cases hrun
    exact ⟨[],by rwa [append_nil]⟩
  | cons op ops ih =>
    obtain ⟨m,hm,hrest⟩ := exec_cons hrun
    obtain ⟨hop,hops⟩ := hops
    obtain ⟨hfirst,hprinted⟩ := forall_mem_cons.mp hprinted
    cases hm
    obtain ⟨wrote,hstep⟩ := h.step hop hfirst
    obtain ⟨more,hmore⟩ := ih hstep (hops _ rfl) hprinted hrest
    exact ⟨wrote ++ more,by rwa [← append_assoc]⟩

theorem Accounted.rows {kept : List AttemptRecord} (h : Accounted t s kept) :
    (fileText s.file).map (rowsOf t) = some (kept.map row) := by
  obtain ⟨text,hfile,hheld⟩ := h.held
  rw [hfile,Option.map_some,hheld.rows]

/-- Over every careful run the ledger keeps every row exactly once, and a row that can be read
at some time is the same row of the file ever after. -/
theorem attempts_kept_once {s s' : State} {before after : List Op}
    (hprinted : ∀ op ∈ before ++ after, ∀ r ∈ op.records, Printed t r)
    (hcareful : AllSteps (next t) (Careful t) {} (before ++ after)) (hbefore : exec (next t) {} before = some s)
    (hafter : exec (next t) s after = some s') :
    KeepsRows t s ∧ ∃ rows more, (fileText s.file).map (rowsOf t) = some rows ∧
      (fileText s'.file).map (rowsOf t) = some (rows ++ more) := by
  have hfirst := hcareful.take
  have hsecond := hcareful.drop hbefore
  obtain ⟨kept,hkept⟩ := accounted_empty.exec hfirst (fun op hop => hprinted op (mem_append.mpr (Or.inl hop))) hbefore
  obtain ⟨wrote,hwrote⟩ := hkept.exec hsecond (fun op hop => hprinted op (mem_append.mpr (Or.inr hop))) hafter
  refine ⟨hkept.keepsRows,_,wrote.map row,hkept.rows,?_⟩
  rw [hwrote.rows,map_append]

def built : AttemptRecord where
  ts := "2026-09-01T00:00:00+00:00"
  taskKind := "fix"
  harness := "autodev"
  model := "kiro/claude-haiku-4.5"
  outcome := "accepted"
  failureClass := "success"
  source := "autodev"
  runId := some "run-1"
  nodeId := some "build"
  attemptId := some "a1"
  recordKind := some "terminal"

def checked : AttemptRecord := {built with recordKind := some "checker", checkerDigest := some "c1"}

@[irreducible] def opening : List Char := "\x7b\"attempt_id\": \"a1\",".toList

@[irreducible] def remainder (digest kind : String) : List Char :=
  " \"checker_digest\": ".toList ++ digest.toList ++
    ", \"cost_usd\": null, \"decision_id\": null, \"duration_s\": null, \"effective_parameters\": null, ".toList ++
    "\"effort\": null, \"failure_class\": \"success\", \"harness\": \"autodev\", ".toList ++
    "\"model\": \"kiro/claude-haiku-4.5\", \"node_id\": \"build\", \"outcome\": \"accepted\", ".toList ++
    "\"profile_digest\": null, \"quality_credit\": null, \"record_kind\": ".toList ++ kind.toList ++
    ", \"request_id\": null, \"run_id\": \"run-1\", \"source\": \"autodev\", \"story_id\": null, ".toList ++
    "\"task_family\": null, \"task_kind\": \"fix\", \"tokens_in\": null, \"tokens_out\": null, ".toList ++
    "\"ts\": \"2026-09-01T00:00:00+00:00\"".toList

def builtText : List Char := opening ++ remainder "null" "\"terminal\"" ++ ['\x7d']

def checkedText : List Char := opening ++ remainder "\"c1\"" "\"checker\"" ++ ['\x7d']

/-- `json.dumps` and `json.loads` on the two rows and on what a crash leaves of their texts. -/
def rowsJson : JsonText.Library where
  dumps j := if rowKey j = some checked.key then checkedText else builtText
  loads text :=
    if text = builtText then .ok built.row
    else if text = checkedText then .ok checked.row
    else .error "Expecting value"

theorem dumps_built : rowsJson.dumps built.row = builtText := by
  have hkey : rowKey built.row ≠ some checked.key := by
    rw [rowKey_row]
    decide
  show (if rowKey built.row = some checked.key then checkedText else builtText) = builtText
  rw [if_neg hkey]

theorem dumps_checked : rowsJson.dumps checked.row = checkedText := by
  show (if rowKey checked.row = some checked.key then checkedText else builtText) = checkedText
  rw [if_pos (rowKey_row checked)]

variable {digest kind : String}

theorem opening_remainder_plain (h : digest = "null" ∧ kind = "\"terminal\"" ∨ digest = "\"c1\"" ∧ kind = "\"checker\"") :
    ∀ c ∈ opening ++ remainder digest kind, c ≠ '\n' ∧ c ≠ '\r' ∧ c ≠ '\x7d' := by
  have hplain : ((opening ++ remainder digest kind).all fun c => c != '\n' && c != '\r' && c != '\x7d') = true := by
    obtain ⟨rfl,rfl⟩ | ⟨rfl,rfl⟩ := h <;>
    · unfold opening remainder
      repeat rw [String.toList_ofList]
      decide +kernel
  intro c hc
  simpa [and_assoc] using all_eq_true.mp hplain c hc

theorem builtText_ne_checkedText : checkedText ≠ builtText := by
  intro h
  rw [checkedText,builtText] at h
  have hrest := List.append_cancel_left (List.append_cancel_right h)
  unfold remainder at hrest
  repeat rw [String.toList_ofList] at hrest
  revert hrest
  decide +kernel

/-- Cut short, a row's text has no closing brace. -/
theorem printed_of (h : digest = "null" ∧ kind = "\"terminal\"" ∨ digest = "\"c1\"" ∧ kind = "\"checker\"")
    (hdumps : rowsJson.dumps r.row = opening ++ remainder digest kind ++ ['\x7d'])
    (hloads : rowsJson.read (rowsJson.dumps r.row) = some r.row) : Printed rowsJson r where
  nonempty := by
    rw [hdumps]
    exact List.append_ne_nil_of_right_ne_nil _ (List.cons_ne_nil _ _)
  loads := hloads
  oneLine := by
    rw [hdumps]
    intro c hc
    obtain hc | hc := mem_append.mp hc
    · exact ⟨(opening_remainder_plain h c hc).1,(opening_remainder_plain h c hc).2.1⟩
    · rw [mem_singleton.mp hc]
      decide
  whole := by
    rw [hdumps]
    intro text hpre hne
    have hbody : text <+: opening ++ remainder digest kind := (List.prefix_concat_iff.mp hpre).resolve_left hne
    have hbrace : '\x7d' ∉ text := fun hc => (opening_remainder_plain h _ (hbody.subset hc)).2.2 rfl
    have hbuilt : text ≠ builtText := by
      rintro rfl
      exact hbrace (List.mem_append_right _ mem_cons_self)
    have hchecked : text ≠ checkedText := by
      rintro rfl
      exact hbrace (List.mem_append_right _ mem_cons_self)
    show (rowsJson.loads text).toOption = none
    rw [show rowsJson.loads text = .error "Expecting value" from (if_neg hbuilt).trans (if_neg hchecked)]
    rfl

theorem built_printed : Printed rowsJson built := by
  refine printed_of (Or.inl ⟨rfl,rfl⟩) dumps_built ?_
  show (rowsJson.loads _).toOption = _
  rw [dumps_built,show rowsJson.loads builtText = .ok built.row from if_pos rfl]
  rfl

theorem checked_printed : Printed rowsJson checked := by
  refine printed_of (Or.inr ⟨rfl,rfl⟩) dumps_checked ?_
  show (rowsJson.loads _).toOption = _
  rw [dumps_checked,show rowsJson.loads checkedText = .ok checked.row from
    (if_neg builtText_ne_checkedText).trans (if_pos rfl)]
  rfl

theorem new_in_empty {records : List AttemptRecord} (hkinds : ∀ r ∈ records, r.HasKind) :
    newRecords t [] records = .ok records := by
  obtain ⟨text,hfile,hheld⟩ := (accounted_empty (t := t)).held
  rw [newRecords_of hfile hheld hkinds]
  congr 1
  rw [List.filter_eq_self]
  exact fun r _ => decide_eq_true not_mem_nil

def builtOnce : Op := .appendNew [built] none

/-- Both rows are recorded, one of them again, and the write of the other is cut. -/
def cutCheck : Op := .appendNew [built,checked] (some 20)

def recorded : State := step rowsJson {} builtOnce

def cutShort : State := step rowsJson recorded cutCheck

theorem file_recorded : recorded.file = payload rowsJson [built] := by
  show appendLines rowsJson {} builtOnce = _
  rw [appendLines,builtOnce,Op.pending,new_in_empty (by decide)]
  rfl

theorem holds_recorded : Holds rowsJson [built] ([built].flatMap (line rowsJson)) :=
  ⟨[built],[],[],fun _ hr => mem_singleton.mp hr ▸ built_printed,.clean,rfl,(append_nil _).symm⟩

theorem text_recorded : fileText recorded.file = some ([built].flatMap (line rowsJson)) := by
  rw [file_recorded]
  exact fileText_payload _

theorem cutCheck_pending : cutCheck.pending rowsJson recorded = .ok [checked] :=
  newRecords_of text_recorded holds_recorded (by decide)

theorem surviving_opening : surviving (payload rowsJson [checked]) (some 20) = encode opening := by
  have hlength : (encode opening).length = 20 := by
    unfold opening
    rw [String.toList_ofList]
    decide +kernel
  have hpayload : payload rowsJson [checked] =
      encode opening ++ encode (remainder "\"c1\"" "\"checker\"" ++ ['\x7d'] ++ ['\n']) := by
    rw [payload,List.flatMap_singleton,line,dumps_checked,checkedText,encode,encode,encode,
      ← List.flatMap_append]
    simp only [append_assoc]
  rw [hpayload,surviving,← hlength,List.take_left]

theorem file_cut : cutShort.file = payload rowsJson [built] ++ encode opening := by
  show appendLines rowsJson recorded cutCheck = _
  rw [appendLines,cutCheck_pending,file_recorded]
  exact congrArg (payload rowsJson [built] ++ ·) surviving_opening

theorem holds_cut : Holds rowsJson [built] ([built].flatMap (line rowsJson) ++ opening) := by
  refine ⟨[built],opening,[],fun _ hr => mem_singleton.mp hr ▸ built_printed,?_,rfl,rfl⟩
  have hcut : opening <+: rowsJson.dumps checked.row := by
    rw [dumps_checked,checkedText,append_assoc]
    exact prefix_append _ _
  refine .torn checked opening checked_printed hcut fun heq => ?_
  have hbrace : '\x7d' ∈ opening := by
    rw [heq,dumps_checked]
    exact List.mem_append_right _ mem_cons_self
  exact (opening_remainder_plain (Or.inl ⟨rfl,rfl⟩) _ (List.mem_append_left _ hbrace)).2.2 rfl

theorem text_cut : fileText cutShort.file = some ([built].flatMap (line rowsJson) ++ opening) := by
  rw [file_cut]
  exact fileText_append (fileText_payload _) (fileText_of (decode_encode _))

theorem careful_of {records new : List AttemptRecord} {cut : Option ℕ} (hkinds : ∀ r ∈ records, r.HasKind)
    (hpending : (Op.appendNew records cut).pending t s = .ok new) (hdistinct : (new.map key).Nodup)
    (hends : new ≠ [] → EndsLine s.file) (hchars : (fileText (surviving (payload t new) cut)).isSome) :
    Careful t s (.appendNew records cut) := by
  have hnew : ∀ new', (Op.appendNew records cut).pending t s = .ok new' → new = new' :=
    fun _ h => Except.ok.inj (hpending.symm.trans h)
  refine ⟨fun _ _ he => ?_,fun _ h => hnew _ h ▸ hdistinct,fun _ h => hnew _ h ▸ hends,fun _ h => hnew _ h ▸ hchars⟩
  cases he
  exact hkinds

theorem careful_builtOnce : Careful rowsJson {} builtOnce :=
  careful_of (by decide) (new_in_empty (by decide)) (List.nodup_singleton _) (fun _ _ htext _ hc => by cases htext; cases hc)
    (Option.isSome_iff_exists.mpr ⟨_,fileText_payload _⟩)

theorem careful_cutCheck : Careful rowsJson recorded cutCheck := by
  refine careful_of (by decide) cutCheck_pending (List.nodup_singleton _) (fun _ text htext c hc => ?_) ?_
  · cases text_recorded.symm.trans htext
    rw [List.flatMap_singleton,line,List.getLast?_concat] at hc
    exact (Option.some.inj hc).symm
  · rw [surviving_opening]
    exact Option.isSome_iff_exists.mpr ⟨_,fileText_of (decode_encode _)⟩

/-- With nothing new to write the torn line stays as it is. -/
theorem careful_again : Careful rowsJson cutShort builtOnce :=
  careful_of (by decide) (newRecords_of text_cut holds_cut (by decide)) List.nodup_nil (absurd rfl ·)
    (Option.isSome_iff_exists.mpr ⟨_,fileText_payload _⟩)

theorem shared_key_kept_once : KeepsRows rowsJson recorded ∧ ∃ rows more,
    (fileText recorded.file).map (rowsOf rowsJson) = some rows ∧
    (fileText (step rowsJson cutShort builtOnce).file).map (rowsOf rowsJson) = some (rows ++ more) := by
  have hprinted : ∀ op ∈ [builtOnce] ++ [cutCheck,builtOnce], ∀ r ∈ op.records, Printed rowsJson r := by
    have hrecords : ∀ op ∈ [builtOnce] ++ [cutCheck,builtOnce], ∀ r ∈ op.records, r = built ∨ r = checked := by
      simp [builtOnce,cutCheck,Op.records]
    intro op hop r hr
    obtain rfl | rfl := hrecords op hop r hr
    · exact built_printed
    · exact checked_printed
  have hcareful : AllSteps (next rowsJson) (Careful rowsJson) {} ([builtOnce] ++ [cutCheck,builtOnce]) := by
    refine ⟨careful_builtOnce,fun _ h => ?_⟩
    cases h
    refine ⟨careful_cutCheck,fun _ h => ?_⟩
    cases h
    exact ⟨careful_again,fun _ _ => trivial⟩
  exact attempts_kept_once hprinted hcareful rfl rfl

theorem kept_twice (hkind : r.HasKind) (hprinted : Printed t r) :
    ¬ KeepsRows t (step t {} (.appendNew [r,r] none)) := by
  intro hkept
  have hsame : ∀ x ∈ [r,r], x = r := fun x hx => by simpa using hx
  have hkinds : ∀ x ∈ [r,r], x.HasKind := fun x hx => hsame x hx ▸ hkind
  have hfile : (step t {} (.appendNew [r,r] none)).file = payload t [r,r] := by
    show appendLines t {} (.appendNew [r,r] none) = _
    rw [appendLines,Op.pending,new_in_empty hkinds]
    rfl
  have hheld : Holds t [r,r] ([r,r].flatMap (line t)) := by
    exact ⟨[r,r],[],[],fun x hx => hsame x hx ▸ hprinted,.clean,rfl,(append_nil _).symm⟩
  have hcount := hkept.single r.key not_mem_nil
  rw [hfile,storedKeys_of (fileText_payload _) hheld] at hcount
  simp at hcount

/-- One call with the same record twice writes it twice. -/
theorem repeated_in_one_call : ¬∀ (t : JsonText.Library) (ops : List Op) (s : State), (∀ op ∈ ops, ∀ r ∈ op.records, Printed t r) →
    (∀ op ∈ ops, ∀ r ∈ op.records, r.HasKind) → exec (next t) {} ops = some s → KeepsRows t s := by
  intro hall
  have hkind : built.HasKind := by decide
  have hops : ∀ op ∈ [Op.appendNew [built,built] none], ∀ r ∈ op.records, r = built := by
    intro op hop r hr
    rw [mem_singleton.mp hop] at hr
    have hr : r ∈ [built,built] := hr
    simpa using hr
  exact kept_twice hkind built_printed (hall rowsJson [.appendNew [built,built] none] _
    (fun op hop r hr => hops op hop r hr ▸ built_printed) (fun op hop r hr => hops op hop r hr ▸ hkind) rfl)

end Verdict.Outcome
