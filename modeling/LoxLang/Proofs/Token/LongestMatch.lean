import LoxLang.Proofs.Token.LineCounter

set_option autoImplicit false

namespace LoxLang

open Lexeme

/-- The spans that scanning a source text consumes. -/
structure Spans (source : String) (ls : List Lexeme) : Prop where
  munched : Munched source.toList ls
  /-- No other spans are. -/
  only : ∀ other, Munched source.toList other → other = ls
  whole : spelled ls = source
  /-- A span is not empty, and it starts and ends between characters. -/
  placed : ∀ before l after, ls = before ++ l :: after →
    l.text ≠ [] ∧ source = spelled before ++ String.ofList l.text ++ spelled after ∧
      String.Pos.Raw.IsValid source (spelled before).rawEndPos ∧
      String.Pos.Raw.IsValid source (spelled (before ++ [l])).rawEndPos

/-- What is answered one by one for the spans of a source text. -/
structure Answered (source : String) (ls : List Lexeme) (answer : Nat → Option (Except Diagnostic Token)) :
    Prop where
  item : ∀ before l after, ls = before ++ l :: after → l.form ≠ .blank →
    ∃ item, answer (visible before).length = some item ∧
      Yields (1 + newlines ((before ++ [l]).flatMap Lexeme.text)) l item
  ended : answer (visible ls).length = some (.ok ⟨.endOfInput, "", 1 + newlines source.toList⟩)
  exhausted : ∀ n, (visible ls).length < n → answer n = none

namespace Lexeme

theorem spelled_append (a b : List Lexeme) : spelled (a ++ b) = spelled a ++ spelled b := by
  simp [spelled]

theorem spelled_singleton (l : Lexeme) : spelled [l] = String.ofList l.text := by
  simp [spelled]

theorem utf8ByteSize_spelled (ls : List Lexeme) :
    (spelled ls).utf8ByteSize = (encoded (ls.flatMap Lexeme.text)).length := by
  rw [spelled, ← bytesOf_ofList, bytesOf]
  rfl

theorem spans_ofText (source : String) : Spans source (ofText source.toList) := by
  have hwhole : spelled (ofText source.toList) = source := by
    rw [spelled, flatMap_ofText, String.ofList_toList]
  refine ⟨.ofText source.toList, fun _ h => h.unique, hwhole, fun before l after hls => ?_⟩
  have hsource : source = spelled before ++ String.ofList l.text ++ spelled after := by
    conv_lhs => rw [← hwhole, hls, List.append_cons, spelled_append, spelled_append, spelled_singleton]
  have hstop : source = spelled (before ++ [l]) ++ spelled after := by
    rw [spelled_append, spelled_singleton]
    exact hsource
  refine ⟨(Munched.ofText source.toList).ne_nil l (by simp [hls]), hsource, ?_, ?_⟩
  · exact String.Pos.Raw.isValid_iff_exists_append.mpr
      ⟨_, String.ofList l.text ++ spelled after, by rw [← String.append_assoc]; exact hsource, rfl⟩
  · exact String.Pos.Raw.isValid_iff_exists_append.mpr ⟨_, _, hstop, rfl⟩

end Lexeme

theorem Token.answered_scan (source : String) :
    Answered source (ofText source.toList) fun n => (scan source)[n]? where
  item := by
    intro before l after hls hvisible
    obtain ⟨item, hitem, hyields⟩ :=
      item?_of_visible hvisible (1 + newlines ((before ++ [l]).flatMap Lexeme.text))
    refine ⟨item, ?_, hyields⟩
    have hline : 1 + newlines (before.flatMap Lexeme.text) + newlines l.text =
        1 + newlines ((before ++ [l]).flatMap Lexeme.text) := by
      rw [List.flatMap_append, newlines_append, List.flatMap_singleton, Nat.add_assoc]
    rw [scan, hls, getElem?_items, items, hline, hitem]
    rfl
  ended := by
    have hlast := getElem?_items 1 (ofText source.toList) []
    rwa [List.append_nil, flatMap_ofText] at hlast
  exhausted := by
    intro n hn
    refine List.getElem?_eq_none ?_
    rw [scan, length_items]
    exact hn

namespace ByteScanner

theorem Counts.takes {s : ByteScanner} {before rest : List Char} {l : Lexeme} {after : List Lexeme}
    (h : s.Counts before rest) (hrest : ofText rest = l :: after) :
    ∃ s', s.passSpan = some s' ∧ s'.start = (encoded before).length ∧
      s'.position = (encoded (before ++ l.text)).length := by
  cases rest with
  | nil => cases hrest
  | cons c text =>
    rw [ofText_cons] at hrest
    obtain ⟨rfl, -⟩ := List.cons.inj hrest
    refine ⟨(s.restart.leaves (split c text).1).2, ?_, ?_, ?_⟩
    · rw [ByteScanner.passSpan, h.stands.scanLexeme]
      rfl
    · rw [ByteScanner.leaves]
      cases (split c text).1.form <;> exact h.stands.start
    · exact h.leaves.stands.start

theorem passSpan_spans {source : String} {before after : List Lexeme} {l : Lexeme}
    (h : ofText source.toList = before ++ l :: after) :
    ∃ s s', (fresh source).passSpans before.length = some s ∧ s.passSpan = some s' ∧
      s'.start = (spelled before).utf8ByteSize ∧ s'.position = (spelled (before ++ [l])).utf8ByteSize := by
  have hcount : before.length ≤ (ofText source.toList).length := by simp [h]
  obtain ⟨s, hspans, hcounts⟩ := (fresh_counts source).passSpans before.length hcount
  rw [h, List.take_left, List.drop_left, List.nil_append] at hcounts
  have hmunched := Munched.ofText source.toList
  rw [h] at hmunched
  obtain ⟨rest, hfirst, rfl⟩ := hmunched.part
  have hrest : ofText ((l :: ofText rest).flatMap Lexeme.text) = l :: ofText rest := by
    rw [List.flatMap_cons, flatMap_ofText]
    exact ((Munched.cons hfirst (.ofText rest)).unique).symm
  obtain ⟨s', hspan, hstart, hstop⟩ := hcounts.takes hrest
  refine ⟨s, s', hspans, hspan, ?_, ?_⟩
  · rw [hstart, utf8ByteSize_spelled]
  · rw [hstop, utf8ByteSize_spelled, List.flatMap_append, List.flatMap_singleton]

end ByteScanner

/-- Scanning is longest match by the lexical grammar, and loses nothing. Source text is cut up into spans
by longest match, in the one way there is, and the scanner passes over one of them after the other; an error
is a span at which there is no lexeme. One item is answered for every span that is neither white space nor a
comment, in order, then the end of the input once, and then nothing. -/
theorem Token.scan_longest_match (source : String) :
    Spans source (ofText source.toList) ∧
      Answered source (ofText source.toList) (Reader.start source).answer ∧
      scanBytes source = some (scan source) ∧
      (∀ n, (Reader.start source).answer n = (scan source)[n]? ∧
        ∃ s s', (ByteScanner.fresh source).asked n = some s ∧
          s.next s.passes = some ((scan source)[n]?, s')) ∧
      ∀ before l after, ofText source.toList = before ++ l :: after →
        ∃ s s', (ByteScanner.fresh source).passSpans before.length = some s ∧ s.passSpan = some s' ∧
          s'.start = (spelled before).utf8ByteSize ∧
          s'.position = (spelled (before ++ [l])).utf8ByteSize := by
  have hanswers : (Reader.start source).answer = fun n => (scan source)[n]? :=
    funext (Reader.answer_start source)
  refine ⟨spans_ofText source, hanswers ▸ answered_scan source, scanBytes_eq source, fun n => ⟨?_, ?_⟩, ?_⟩
  · exact Reader.answer_start source n
  · have hfresh := ByteScanner.fresh_counts source
    have hread : (ByteScanner.fresh source).ReadTo source.toList (Reader.start source) := .between rfl hfresh
    obtain ⟨s, hasked, hs⟩ := hread.asked n
    obtain ⟨s', hnext, -⟩ := hs.next
    rw [← Reader.answer_start]
    exact ⟨s, s', hasked, hnext⟩
  · exact fun before l after hspans => ByteScanner.passSpan_spans hspans

/-- A point is part of a number only if digits follow it. -/
example : Token.scan "8.5 8." =
    [.ok ⟨.number (.ofDigits false ['8'] ['5'] 0), "8.5", 1⟩, .ok ⟨.number (.ofDigits false ['8'] [] 0), "8", 1⟩,
      .ok ⟨.mark .dot, ".", 1⟩, .ok ⟨.endOfInput, "", 1⟩] := by
  decide +kernel

end LoxLang
