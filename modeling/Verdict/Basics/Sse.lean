import Mathlib.Algebra.GroupWithZero.Nat
import Mathlib.Data.List.Induction

/-! # Event streams as text

The text of an event stream is a sequence of lines; a blank line ends the event whose data
lines came before it. What a text has completed and what it has left open is computed from
the text alone, and one more character changes it in one of a few ways.
-/
namespace Verdict.Sse

open List (append_assoc append_nil mem_singleton prefix_refl reverseRecOn)

abbrev Text := List Char

def newline : Char := '\n'

variable (line : Text)

/-- `line.rstrip("\r")`. -/
def rstripReturn : Text := (line.reverse.dropWhile (· = '\r')).reverse

variable (t : Text)

def cut : List Text × Text :=
  t.foldl (fun s c => if c = newline then (s.1 ++ [s.2],[]) else (s.1,s.2 ++ [c])) ([],[])

def lines : List Text := (cut t).1
def unfinished : Text := (cut t).2

@[simp] theorem lines_nil : lines [] = [] := rfl
@[simp] theorem unfinished_nil : unfinished [] = [] := rfl

theorem cut_snoc (c : Char) :
    cut (t ++ [c]) = if c = newline then (lines t ++ [unfinished t],[]) else (lines t,unfinished t ++ [c]) := by
  rw [cut,List.foldl_append]
  rfl

variable {c : Char}

@[simp] theorem lines_newline : lines (t ++ [newline]) = lines t ++ [unfinished t] := by
  rw [lines,cut_snoc,if_pos rfl]

@[simp] theorem unfinished_newline : unfinished (t ++ [newline]) = [] := by
  rw [unfinished,cut_snoc,if_pos rfl]

theorem lines_char (hc : c ≠ newline) : lines (t ++ [c]) = lines t := by
  rw [lines,cut_snoc,if_neg hc]

theorem unfinished_char (hc : c ≠ newline) : unfinished (t ++ [c]) = unfinished t ++ [c] := by
  rw [unfinished,cut_snoc,if_neg hc]

theorem unfinished_append_length (t u : Text) : (unfinished (t ++ u)).length ≤ (unfinished t).length + u.length := by
  induction u using reverseRecOn with
  | nil =>
    rw [append_nil]
    exact Nat.le_add_right _ _
  | append_singleton u c ih =>
    rw [← append_assoc]
    by_cases hc : c = newline
    · rw [hc,unfinished_newline]
      exact Nat.zero_le _
    · rw [unfinished_char _ hc,List.length_append,List.length_append,← Nat.add_assoc]
      exact Nat.add_le_add_right ih _

/-- What one line says: it ends the event, adds to its data, or is passed over. -/
inductive Field
  | blank
  | data (value : Text)
  | other

def dataKey : Text := ['d','a','t','a',':']

def dataValue : Text := match line.drop dataKey.length with
  | ' ' :: value => value
  | value => value

def field : Field :=
  if line = [] then .blank
  else if dataKey.isPrefixOf line then .data (dataValue line)
  else .other

structure Blocks where
  events : List (List Text) := []
  data : List Text := []

def Blocks.add (s : Blocks) (line : Text) : Blocks := match field (rstripReturn line) with
  | .blank => if s.data = [] then s else ⟨s.events ++ [s.data],[]⟩
  | .data value => ⟨s.events,s.data ++ [value]⟩
  | .other => s

def blocks (ls : List Text) : Blocks := ls.foldl Blocks.add {}

variable (data : List Text)

@[simp] theorem blocks_nil : blocks [] = {} := rfl

@[simp] theorem blocks_snoc (ls : List Text) (line : Text) : blocks (ls ++ [line]) = (blocks ls).add line := by
  rw [blocks,List.foldl_append]
  rfl

def joined : Text := [newline].intercalate data

def events (t : Text) : List (List Text) := (blocks (lines t)).events

def openData : List Text := (blocks (lines t)).data

def size : ℕ := (data.map List.length).sum

@[simp] theorem events_nil : events [] = [] := rfl
@[simp] theorem openData_nil : openData [] = [] := rfl
@[simp] theorem size_nil : size [] = 0 := rfl

@[simp] theorem size_snoc (value : Text) : size (data ++ [value]) = size data + value.length := by
  simp [size]

theorem events_char (hc : c ≠ newline) : events (t ++ [c]) = events t := by
  rw [events,lines_char t hc]
  rfl

theorem openData_char (hc : c ≠ newline) : openData (t ++ [c]) = openData t := by
  rw [openData,lines_char t hc]
  rfl

theorem blocks_newline : blocks (lines (t ++ [newline])) = (blocks (lines t)).add (unfinished t) := by
  rw [lines_newline,blocks_snoc]

theorem events_blank {t : Text} (hline : field (rstripReturn (unfinished t)) = .blank) (hdata : openData t ≠ []) :
    events (t ++ [newline]) = events t ++ [openData t] ∧ openData (t ++ [newline]) = [] := by
  have h := blocks_newline t
  simp only [Blocks.add,hline] at h
  rw [if_neg (show (blocks (lines t)).data ≠ [] from hdata)] at h
  exact ⟨congrArg Blocks.events h,congrArg Blocks.data h⟩

theorem events_blank_empty {t : Text} (hline : field (rstripReturn (unfinished t)) = .blank) (hdata : openData t = []) :
    events (t ++ [newline]) = events t ∧ openData (t ++ [newline]) = [] := by
  have h := blocks_newline t
  simp only [Blocks.add,hline] at h
  rw [if_pos (show (blocks (lines t)).data = [] from hdata)] at h
  exact ⟨congrArg Blocks.events h,(congrArg Blocks.data h).trans hdata⟩

theorem events_data {t : Text} {value : Text} (hline : field (rstripReturn (unfinished t)) = .data value) :
    events (t ++ [newline]) = events t ∧ openData (t ++ [newline]) = openData t ++ [value] := by
  have h := blocks_newline t
  simp only [Blocks.add,hline] at h
  have hevents := congrArg Blocks.events h
  have hdata := congrArg Blocks.data h
  exact ⟨hevents,hdata⟩

theorem events_other {t : Text} (hline : field (rstripReturn (unfinished t)) = .other) :
    events (t ++ [newline]) = events t ∧ openData (t ++ [newline]) = openData t := by
  have h := blocks_newline t
  simp only [Blocks.add,hline] at h
  exact ⟨congrArg Blocks.events h,congrArg Blocks.data h⟩

theorem events_snoc (c : Char) :
    events (t ++ [c]) = events t ∨ (c = newline ∧ field (rstripReturn (unfinished t)) = .blank ∧ openData t ≠ [] ∧
      events (t ++ [c]) = events t ++ [openData t]) := by
  by_cases hc : c = newline
  · subst hc
    cases hline : field (rstripReturn (unfinished t)) with
    | blank =>
      by_cases hdata : openData t = []
      · exact .inl (events_blank_empty hline hdata).1
      · exact .inr ⟨rfl,rfl,hdata,(events_blank hline hdata).1⟩
    | data value => exact .inl (events_data hline).1
    | other => exact .inl (events_other hline).1
  · exact .inl (events_char t hc)

theorem events_mono (t u : Text) : events t <+: events (t ++ u) := by
  induction u using reverseRecOn with
  | nil =>
    have hsame : t ++ [] = t := append_nil t
    exact hsame.symm ▸ prefix_refl (events t)
  | append_singleton u c ih =>
    rw [← append_assoc]
    rcases events_snoc (t ++ u) c with h | ⟨-,-,-,h⟩
    · rw [h]
      exact ih
    · rw [h]
      exact ih.trans (List.prefix_append _ _)

theorem openData_within (t u : Text) : ∃ data ∈ events (t ++ u) ++ [openData (t ++ u)], openData t <+: data := by
  induction u using reverseRecOn with
  | nil =>
    rw [append_nil]
    exact ⟨_,List.mem_append_right _ (mem_singleton.mpr rfl),prefix_refl _⟩
  | append_singleton u c ih =>
    rw [← append_assoc]
    obtain ⟨data,hdata,hle⟩ := ih
    rcases List.mem_append.mp hdata with hdata | hdata
    · exact ⟨data,List.mem_append_left _ ((events_mono (t ++ u) [c]).subset hdata),hle⟩
    · obtain rfl := mem_singleton.mp hdata
      have hlast : ∀ e, openData (t ++ u) <+: e → e = openData (t ++ u ++ [c]) →
          ∃ data ∈ events (t ++ u ++ [c]) ++ [openData (t ++ u ++ [c])], openData t <+: data := by
        intro e hgrown he
        exact ⟨e,List.mem_append_right _ (mem_singleton.mpr he),hle.trans hgrown⟩
      by_cases hc : c = newline
      · subst hc
        cases hline : field (rstripReturn (unfinished (t ++ u))) with
        | blank =>
          by_cases hopen : openData (t ++ u) = []
          · exact hlast _ (prefix_refl _) (hopen.trans (events_blank_empty hline hopen).2.symm)
          · refine ⟨_,List.mem_append_left _ ?_,hle⟩
            rw [(events_blank hline hopen).1]
            exact List.mem_append_right _ (mem_singleton.mpr rfl)
        | data value => exact hlast _ (List.prefix_append _ [value]) (events_data hline).2.symm
        | other => exact hlast _ (prefix_refl _) (events_other hline).2.symm
      · exact hlast _ (prefix_refl _) (openData_char _ hc).symm

theorem size_prefix {data more : List Text} (h : data <+: more) : size data ≤ size more := by
  obtain ⟨rest,rfl⟩ := h
  rw [size,size,List.map_append,List.sum_append]
  exact Nat.le_add_right _ _

end Verdict.Sse
