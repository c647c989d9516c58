import Verdict.Basics.Run
import Verdict.Prime.Leases

/-! # Leases fence old writers

A write of a lease renews the active generation or starts the next one, and each prefix of the
writes of a call leaves a directory in which the file of a superseded generation says so and is
never written again. The calls keep this, but for a release of a generation that was superseded.
-/
namespace Verdict.Leases
open Raising

/-- The generation in `active.json`, or zero. -/
def gen (f : Folder) : ℕ := f.active.elim 0 Lease.generation

theorem gen_of_active {f : Folder} {l : Lease} (h : f.active = some l) : gen f = l.generation := by
  rw [gen,h,Option.elim_some]

structure Kept (issue : String) (f : Folder) : Prop where
  named : ∀ l ∈ f.active, l.issue = issue ∧ 1 ≤ l.generation
  filed : ∀ n l, f.generations.get? n = some l → l.generation = n ∧ 1 ≤ n ∧ n ≤ gen f + 1
  every : ∀ n, 1 ≤ n → n ≤ gen f → ∃ l, f.generations.get? n = some l
  mirrored : ∀ l ∈ f.active, l.status = .superseded → ∃ m, f.generations.get? l.generation = some m ∧ m.status = .superseded

/-- The file of a generation that is past, or that is superseded in `active.json`, says superseded. -/
def Sealed (f : Folder) (n : ℕ) (l : Lease) : Prop :=
  f.generations.get? n = some l ∧ l.status = .superseded ∧
    (n < gen f ∨ ∃ m, f.active = some m ∧ m.generation = n ∧ m.status = .superseded)

structure Later (f g : Folder) : Prop where
  generations : gen f ≤ gen g
  held : f.active.isSome = true → g.active.isSome = true
  closed : ∀ l, f.active = some l → l.status ≠ .active → ∀ m, g.active = some m → m.generation = l.generation → m.status ≠ .active
  sealed : ∀ n l, Sealed f n l → Sealed g n l

theorem Later.refl (f : Folder) : Later f f := by
  refine ⟨le_rfl,id,?_,fun _ _ => id⟩
  intro l hl hclosed m hm _
  cases hl.symm.trans hm
  exact hclosed

theorem Later.trans {f g h : Folder} (hfg : Later f g) (hgh : Later g h) : Later f h := by
  refine ⟨hfg.generations.trans hgh.generations,fun hf => hgh.held (hfg.held hf),?_,fun n l hl => hgh.sealed n l (hfg.sealed n l hl)⟩
  intro l hl hclosed m hm hsame
  obtain ⟨k,hk⟩ := Option.isSome_iff_exists.mp (hfg.held (by rw [hl]; rfl))
  have hle := hfg.generations
  have hle' := hgh.generations
  rw [gen_of_active hl,gen_of_active hk] at hle
  rw [gen_of_active hk,gen_of_active hm] at hle'
  have hsame' : k.generation = l.generation := by omega
  exact hgh.closed k hk (hfg.closed l hl hclosed k hk hsame') m hm (by omega)

/-! ### One lease -/

/-- A lease that renews the active one, or that follows one which is no longer active. -/
inductive Persists (f : Folder) (l : Lease) : Prop
  | renews (m : Lease) (held : f.active = some m) (same : l.generation = m.generation)
      (status : m.status = .active ∨ (m.status = .released ∧ l.status ≠ .active))
  | starts (next : l.generation = gen f + 1) (closed : ∀ m, f.active = some m → m.status ≠ .active)

section Persist
variable {issue : String} {f : Folder} {l : Lease}

theorem Persists.positive (h : Persists f l) (hkept : Kept issue f) : 1 ≤ l.generation := by
  cases h with
  | renews m held same status =>
    rw [same]
    exact (hkept.named m held).2
  | starts next closed => omega

theorem Persists.range (h : Persists f l) : gen f ≤ l.generation ∧ l.generation ≤ gen f + 1 := by
  cases h with
  | renews m held same status =>
    rw [gen_of_active held]
    omega
  | starts next closed => omega

theorem Persists.not_sealed (h : Persists f l) {n : ℕ} {k : Lease} (hsealed : Sealed f n k) : n ≠ l.generation := by
  obtain ⟨-,-,hpast | ⟨m,hm,rfl,hm'⟩⟩ := hsealed
  · have := h.range
    omega
  · cases h with
    | renews m' held same status =>
      cases held.symm.trans hm
      rw [hm'] at status
      rcases status with hactive | ⟨hreleased,-⟩
      · cases hactive
      · cases hreleased
    | starts next closed =>
      rw [gen_of_active hm] at next
      omega

theorem generation_written (hkept : Kept issue f) (h : Persists f l) :
    Kept issue (f.write ⟨.generation,l⟩) ∧ Later f (f.write ⟨.generation,l⟩) := by
  have hget : ∀ n, (f.write ⟨.generation,l⟩).generations.get? n = if n = l.generation then some l else f.generations.get? n :=
    fun n => Dict.get?_set _ _ _ _
  have hrange := h.range
  constructor
  · refine ⟨hkept.named,?_,?_,?_⟩
    · intro n k hk
      rw [hget] at hk
      split at hk
      · rename_i hn
        cases hk
        exact ⟨hn.symm,hn ▸ h.positive hkept,hn ▸ hrange.2⟩
      · exact hkept.filed n k hk
    · intro n hn hle
      rw [hget]
      split
      · exact ⟨l,rfl⟩
      · exact hkept.every n hn hle
    · intro m hm hstatus
      obtain ⟨k,hk,hk'⟩ := hkept.mirrored m hm hstatus
      have hne := h.not_sealed (n := m.generation) (k := k) ⟨hk,hk',.inr ⟨m,hm,rfl,hstatus⟩⟩
      exact ⟨k,by rw [hget,if_neg hne]; exact hk,hk'⟩
  · refine ⟨le_rfl,id,(Later.refl f).closed,?_⟩
    intro n k hsealed
    obtain ⟨hk,hk',hwhere⟩ := id hsealed
    exact ⟨by rw [hget,if_neg (h.not_sealed hsealed)]; exact hk,hk',hwhere⟩

theorem active_written (hkept : Kept issue f) (h : Persists f l) (hissue : l.issue = issue) :
    Kept issue ((f.write ⟨.generation,l⟩).write ⟨.active,l⟩) ∧ Later f ((f.write ⟨.generation,l⟩).write ⟨.active,l⟩) := by
  have hget : ∀ n, ((f.write ⟨.generation,l⟩).write ⟨.active,l⟩).generations.get? n =
      if n = l.generation then some l else f.generations.get? n := fun n => Dict.get?_set _ _ _ _
  have hgen : gen ((f.write ⟨.generation,l⟩).write ⟨.active,l⟩) = l.generation := rfl
  have hactive : ((f.write ⟨.generation,l⟩).write ⟨.active,l⟩).active = some l := rfl
  have hrange := h.range
  obtain ⟨hmiddle,-⟩ := generation_written hkept h
  constructor
  · refine ⟨?_,?_,?_,?_⟩
    · intro k hk
      cases hactive.symm.trans hk
      exact ⟨hissue,h.positive hkept⟩
    · intro n k hk
      obtain ⟨hn,hpos,hle⟩ := hmiddle.filed n k hk
      have hle : n ≤ gen f + 1 := hle
      rw [hgen]
      exact ⟨hn,hpos,by omega⟩
    · intro n hn hle
      rw [hget]
      split
      · exact ⟨l,rfl⟩
      · rename_i hne
        rw [hgen] at hle
        exact hkept.every n hn (by omega)
    · intro k hk hstatus
      cases hactive.symm.trans hk
      exact ⟨l,by rw [hget,if_pos rfl],hstatus⟩
  · refine ⟨by rw [hgen]; exact hrange.1,fun _ => rfl,?_,?_⟩
    · intro m hm hclosed k hk hsame
      cases hactive.symm.trans hk
      cases h with
      | renews m' held same status =>
        cases held.symm.trans hm
        rcases status with hm' | ⟨-,hl⟩
        · exact absurd hm' hclosed
        · exact hl
      | starts next closed =>
        rw [gen_of_active hm] at next
        omega
    · intro n k hsealed
      have hne := h.not_sealed hsealed
      obtain ⟨hk,hk',hwhere⟩ := hsealed
      refine ⟨by rw [hget,if_neg hne]; exact hk,hk',.inl ?_⟩
      have hle : n ≤ gen f := by
        rcases hwhere with hpast | ⟨m,hm,rfl,-⟩
        · exact hpast.le
        · exact (gen_of_active hm).ge
      rw [hgen]
      omega

theorem persist_partway (hkept : Kept issue f) (h : Persists f l) (hissue : l.issue = issue) (k : ℕ) :
    Kept issue (((persistLease l).take k).foldl Folder.write f) ∧ Later f (((persistLease l).take k).foldl Folder.write f) := by
  match k with
  | 0 => exact ⟨hkept,Later.refl f⟩
  | 1 => exact generation_written hkept h
  | 2 => exact active_written hkept h hissue
  | k + 3 =>
    -- the lock is read by nobody
    obtain ⟨hafter,hlater⟩ := active_written hkept h hissue
    have htake : (persistLease l).take (k + 3) = persistLease l := List.take_of_length_le (Nat.le_add_left 3 k)
    rw [htake]
    exact ⟨⟨hafter.named,hafter.filed,hafter.every,hafter.mirrored⟩,
      ⟨hlater.generations,hlater.held,hlater.closed,hlater.sealed⟩⟩

theorem lock_later (f : Folder) (w : Write) (h : w.file = .lock) : Later f (f.write w) := by
  obtain ⟨file,l⟩ := w
  cases h
  exact ⟨(Later.refl f).generations,(Later.refl f).held,(Later.refl f).closed,(Later.refl f).sealed⟩

theorem persist_between (hkept : Kept issue f) (h : Persists f l) (hissue : l.issue = issue) {j k : ℕ} (hjk : j ≤ k) :
    Later (((persistLease l).take j).foldl Folder.write f) (((persistLease l).take k).foldl Folder.write f) := by
  have hlong : ∀ k, (persistLease l).take (k + 3) = persistLease l := fun k => List.take_of_length_le (Nat.le_add_left 3 k)
  match j, k with
  | 0, k => exact (persist_partway hkept h hissue k).2
  | 1, 1 => exact .refl _
  | 1, k + 2 =>
    obtain ⟨hmiddle,-⟩ := generation_written hkept h
    -- whether the lease may be written depends on `active.json` alone
    have hagain : Persists (f.write ⟨.generation,l⟩) l := by
      cases h with
      | renews m held same status => exact .renews m held same status
      | starts next closed => exact .starts next closed
    have hwrite : ((f.write ⟨.generation,l⟩).write ⟨.generation,l⟩) = f.write ⟨.generation,l⟩ :=
      congrArg (fun d => {f with generations := d}) (Dict.set_again _ _ _)
    obtain ⟨-,hlater⟩ := active_written hmiddle hagain hissue
    rw [hwrite] at hlater
    cases k with
    | zero => exact hlater
    | succ k =>
      rw [hlong k]
      exact hlater.trans (lock_later _ ⟨.lock,l⟩ rfl)
  | 2, 2 => exact .refl _
  | 2, k + 3 =>
    rw [hlong k]
    exact lock_later _ ⟨.lock,l⟩ rfl
  | j + 3, k + 3 =>
    rw [hlong j,hlong k]
    exact .refl _

end Persist

/-! ### The writes of a call -/

/-- Writes of one directory that persist one lease after the other. -/
inductive Sound (issue : String) : Folder → List Write → Prop
  | nil (f : Folder) : Sound issue f []
  | persists {f : Folder} {l : Lease} {ws : List Write} (hl : Persists f l) (hissue : l.issue = issue)
      (hrest : Sound issue ((persistLease l).foldl Folder.write f) ws) : Sound issue f (persistLease l ++ ws)

theorem Sound.one {issue : String} {f : Folder} {l : Lease} (hl : Persists f l) (hissue : l.issue = issue) :
    Sound issue f (persistLease l) := by
  rw [← List.append_nil (persistLease l)]
  exact .persists hl hissue (.nil _)

variable {ws vs : List Write}

theorem sound_partway {issue : String} {f : Folder} (hkept : Kept issue f) (h : Sound issue f ws)
    (hvs : vs <+: ws) : Kept issue (vs.foldl Folder.write f) ∧ Later f (vs.foldl Folder.write f) := by
  induction h generalizing vs with
  | nil f =>
    rw [List.prefix_nil.mp hvs]
    exact ⟨hkept,Later.refl f⟩
  | @persists f l ws hl hissue hrest ih =>
    rcases List.prefix_or_prefix_of_prefix hvs (List.prefix_append (persistLease l) ws) with hfirst | hmore
    · rw [List.prefix_iff_eq_take.mp hfirst]
      exact persist_partway hkept hl hissue _
    · obtain ⟨us,rfl⟩ := hmore
      have hdone := persist_partway hkept hl hissue (persistLease l).length
      rw [List.take_length] at hdone
      obtain ⟨hafter,hlater⟩ := ih hdone.1 ((List.prefix_append_right_inj _).mp hvs)
      rw [List.foldl_append]
      exact ⟨hafter,hdone.2.trans hlater⟩

variable {us : List Write}

theorem sound_between {issue : String} {f : Folder} (hkept : Kept issue f) (h : Sound issue f ws)
    (hus : us <+: vs) (hvs : vs <+: ws) : Later (us.foldl Folder.write f) (vs.foldl Folder.write f) := by
  induction h generalizing us vs with
  | nil f =>
    cases List.prefix_nil.mp hvs
    rw [List.prefix_nil.mp hus]
    exact .refl _
  | @persists f l ws hl hissue hrest ih =>
    rcases List.prefix_or_prefix_of_prefix hvs (List.prefix_append (persistLease l) ws) with hfirst | hmore
    · rw [List.prefix_iff_eq_take.mp hfirst,List.prefix_iff_eq_take.mp (hus.trans hfirst)]
      exact persist_between hkept hl hissue hus.length_le
    · obtain ⟨rest,rfl⟩ := hmore
      have hdone := (persist_partway hkept hl hissue (persistLease l).length).1
      rw [List.take_length] at hdone
      have hbeyond := (List.prefix_append_right_inj _).mp hvs
      rcases List.prefix_or_prefix_of_prefix hus (List.prefix_append (persistLease l) rest) with hearly | hlate
      · have hfirst := persist_between hkept hl hissue hearly.length_le
        rw [List.take_length,← List.prefix_iff_eq_take.mp hearly] at hfirst
        rw [List.foldl_append]
        exact hfirst.trans (sound_partway hdone hrest hbeyond).2
      · obtain ⟨start,rfl⟩ := hlate
        rw [List.foldl_append,List.foldl_append]
        exact ih hdone ((List.prefix_append_right_inj _).mp hus) hbeyond

def writesOf (issue : String) (ws : List Write) : List Write := ws.filter fun w => w.lease.issue = issue

theorem folder_set (s : State) (i j : String) (f : Folder) : folder (s.set i f) j = if j = i then f else folder s j := by
  unfold folder
  rw [Dict.get?_set]
  split <;> rfl

theorem folder_writeAll (s : State) (ws : List Write) (issue : String) :
    folder (writeAll s ws) issue = (writesOf issue ws).foldl Folder.write (folder s issue) := by
  induction ws generalizing s with
  | nil => rfl
  | cons w ws ih =>
    have hrest : folder (writeAll s (w :: ws)) issue = (writesOf issue ws).foldl Folder.write (folder (write s w) issue) := ih _
    rw [hrest,write,folder_set]
    by_cases hw : w.lease.issue = issue
    · have hfilter : writesOf issue (w :: ws) = w :: writesOf issue ws := List.filter_cons_of_pos (by simpa using hw)
      rw [if_pos hw.symm,hfilter,List.foldl_cons,hw]
    · have hfilter : writesOf issue (w :: ws) = writesOf issue ws := List.filter_cons_of_neg (by simpa using hw)
      rw [if_neg (Ne.symm hw),hfilter]

theorem writesOf_append (issue : String) (ws vs : List Write) : writesOf issue (ws ++ vs) = writesOf issue ws ++ writesOf issue vs :=
  List.filter_append ..

theorem writesOf_persist (issue : String) (l : Lease) :
    writesOf issue (persistLease l) = if l.issue = issue then persistLease l else [] := by
  by_cases h : l.issue = issue <;> simp [writesOf,persistLease,h]

def AllKept (s : State) : Prop := ∀ issue, Kept issue (folder s issue)

theorem allKept_empty : AllKept .empty := by
  intro issue
  refine ⟨?_,?_,?_,?_⟩
  · intro l hl
    cases hl
  · intro n l hl
    cases hl
  · intro n hn hle
    have hle : n ≤ 0 := hle
    omega
  · intro l hl
    cases hl

def Sane (s : State) (ws : List Write) : Prop := ∀ issue, Sound issue (folder s issue) (writesOf issue ws)

variable {s : State}

theorem sane_partway (hkept : AllKept s) (h : Sane s ws) (hvs : vs <+: ws) :
    AllKept (writeAll s vs) ∧ ∀ issue, Later (folder s issue) (folder (writeAll s vs) issue) := by
  have hstep : ∀ issue, Kept issue (folder (writeAll s vs) issue) ∧ Later (folder s issue) (folder (writeAll s vs) issue) := by
    intro issue
    rw [folder_writeAll]
    exact sound_partway (hkept issue) (h issue) (hvs.filter _)
  exact ⟨fun issue => (hstep issue).1,fun issue => (hstep issue).2⟩

theorem sane_between (hkept : AllKept s) (h : Sane s ws) (hus : us <+: vs) (hvs : vs <+: ws)
    (issue : String) : Later (folder (writeAll s us) issue) (folder (writeAll s vs) issue) := by
  rw [folder_writeAll,folder_writeAll]
  exact sound_between (hkept issue) (h issue) (hus.filter _) (hvs.filter _)

theorem sane_nil (s : State) : Sane s [] := fun _ => .nil _

theorem sane_persist {l : Lease} (hl : Persists (folder s l.issue) l) : Sane s (persistLease l) := by
  intro issue
  rw [writesOf_persist]
  split
  · rename_i hissue
    subst hissue
    exact .one hl rfl
  · exact .nil _

theorem sane_displaced {l m : Lease} (hl : Persists (folder s l.issue) l) (hissue : m.issue = l.issue)
    (hm : Persists ((persistLease l).foldl Folder.write (folder s l.issue)) m) : Sane s (persistLease l ++ persistLease m) := by
  intro issue
  rw [writesOf_append,writesOf_persist,writesOf_persist,hissue]
  split
  · rename_i heq
    subst heq
    exact .persists hl rfl (.one hm hissue)
  · exact .nil _

end Verdict.Leases
