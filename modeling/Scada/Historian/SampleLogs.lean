import Scada.Historian.LogView

namespace Scada.Historian
open Decimals Delimited KeySorts

-- A line of the logs under tests/. It begins with a separator, as event_log's
-- lines do not, so its third field is the time.
structure SampleLine where
  rtuId : Int
  time : Int
  rest : Text
  one : '\n' ∉ rest

namespace SampleLine

def text (line : SampleLine) : Text := '|'::(decimal line.rtuId++ '|'::(decimal line.time++ '|'::line.rest))

theorem text_clean (line : SampleLine) : '\n' ∉ line.text := by
  have plain : ∀ n, '\n' ∉ decimal n := fun n => decimal_clean n (by decide)
  simp [text,plain,line.one]

theorem sortKey_text (line : SampleLine) : sortKey line.text = line.time := by
  have bar : ∀ n, '|' ∉ decimal n := fun n => decimal_clean n (by decide)
  have first : after '|' line.text = decimal line.rtuId++ '|'::(decimal line.time++ '|'::line.rest) := after_append List.not_mem_nil _
  rw [sortKey,first,after_append (bar line.rtuId),numeric_decimal]
  exact ⟨rfl,by simp⟩

def Before (a b : SampleLine) : Prop := KeySorts.Before sortKey a.text b.text

instance : DecidableRel Before := fun _ _ => inferInstanceAs (Decidable (KeySorts.Before _ _ _))

theorem before_time {a b : SampleLine} (before : Before a b) : a.time ≤ b.time := by
  unfold Before KeySorts.Before at before
  rw [sortKey_text,sortKey_text,Int.cast_lt,Int.cast_inj] at before
  rcases before with earlier | ⟨same,-⟩
  · exact earlier.le
  · exact same.le

end SampleLine

theorem samples_in_time_order (files : Files) (one two : List SampleLine)
    (rtu1 : (files "rtu_1_log.txt".toList).getD [] = terminate '\n' (one.map SampleLine.text))
    (rtu2 : (files "rtu_2_log.txt".toList).getD [] = terminate '\n' (two.map SampleLine.text)) :
    ∃ merged : List SampleLine, merged.Perm (one++two) ∧ merged.Pairwise (fun a b => a.time ≤ b.time) ∧
      (logView files).2 = terminate '\n' (merged.map SampleLine.text) ∧
      (logView files).1 eventLogTxt = some (terminate '\n' (merged.map SampleLine.text)) := by
  have clean : ∀ line ∈ (one++two).map SampleLine.text, '\n' ∉ line := by
    intro line member
    obtain ⟨sample,-,rfl⟩ := List.mem_map.mp member
    exact sample.text_clean
  have input : cat files ["rtu_1_log.txt".toList,"rtu_2_log.txt".toList] = terminate '\n' ((one++two).map SampleLine.text) := by
    simp only [cat,List.flatMap_cons,List.flatMap_nil,List.append_nil,rtu1,rtu2,List.map_append,terminate_append]
  have merged : ((one++two).insertionSort SampleLine.Before).map SampleLine.text = keySort sortKey ((one++two).map SampleLine.text) :=
    List.map_insertionSort _ _ SampleLine.text (one++two) fun _ _ _ _ => Iff.rfl
  have shown : (logView files).2 = terminate '\n' (((one++two).insertionSort SampleLine.Before).map SampleLine.text) := by
    rw [merged,logView,input,sortLines,pieces_terminate clean]
  refine ⟨(one++two).insertionSort SampleLine.Before,List.perm_insertionSort _ _,?_,shown,?_⟩
  · have sorted := keySort_sorted sortKey ((one++two).map SampleLine.text)
    rw [← merged,List.pairwise_map] at sorted
    exact sorted.imp SampleLine.before_time
  · rw [← shown]
    simp only [logView,Function.update_self]

def button3 : Text := "1|1|1|1|1|0|3.992|Button 3 Pressed|".toList
def button2 : Text := "1|1|1|1|0|1|3.992|Button 2 Pressed|".toList
def button1 : Text := "1|1|1|0|1|1|3.992|Button 1 Pressed|".toList

def sample1 : List SampleLine :=
  [⟨1,1493739115,button3,by decide⟩,⟨1,1493739315,button2,by decide⟩,⟨1,1493739415,button1,by decide⟩]
def sample2 : List SampleLine :=
  [⟨2,1493739215,button3,by decide⟩,⟨2,1493739515,button2,by decide⟩,⟨2,1493739615,button1,by decide⟩]

def sampleFiles : Files := fun name =>
  if name = "rtu_1_log.txt".toList then some (terminate '\n' (sample1.map SampleLine.text))
  else if name = "rtu_2_log.txt".toList then some (terminate '\n' (sample2.map SampleLine.text))
  else none

theorem samples_in_time_order_files : ∃ merged : List SampleLine, merged.Perm (sample1++sample2) ∧
    merged.Pairwise (fun a b => a.time ≤ b.time) ∧
      (logView sampleFiles).2 = terminate '\n' (merged.map SampleLine.text) ∧
      (logView sampleFiles).1 eventLogTxt = some (terminate '\n' (merged.map SampleLine.text)) :=
  have other : "rtu_2_log.txt".toList ≠ "rtu_1_log.txt".toList := by decide
  samples_in_time_order sampleFiles sample1 sample2 (by simp only [sampleFiles,if_true,Option.getD_some])
    (by simp only [sampleFiles,if_neg other,if_true,Option.getD_some])

end Scada.Historian
