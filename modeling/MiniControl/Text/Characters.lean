import MiniControl.Text.Yaml

/-!
# Characters of several scalars

Some libraries search a text by its characters, in which a scalar takes the combining
marks that follow it along. A quote that is followed by a mark is then no occurrence of
the quote, and a text in which a mark follows a word does not start with this word.

The words here are of ASCII, whose scalars are characters of their own unless a mark
follows them.
-/

namespace Text

/-- The scalars that belong to the character of the scalar before them. -/
structure Marks where
  isMark : Char → Bool
  ascii : ∀ c : Char, c.toNat < 0x80 → isMark c = false

namespace Marks

variable (marks : Marks)

/-- No mark comes next, so that a character ends here. -/
def breaks : List Char → Bool
  | [] => true
  | c :: _ => !marks.isMark c

/-- The text starts with the characters of the word. -/
def hasPrefix (word text : List Char) : Bool :=
  word.isPrefixOf text && marks.breaks (text.drop word.length)

/-- Every quote that is a character of its own is written twice. -/
def doubleAlone (q : Char) : List Char → List Char
  | [] => []
  | c :: rest =>
    if c = q ∧ marks.breaks rest = true then q :: q :: doubleAlone q rest
    else c :: doubleAlone q rest

/-- Every quote of the text is a character of its own. -/
def quotesAlone (q : Char) : List Char → Bool
  | [] => true
  | c :: rest => (c != q || marks.breaks rest) && quotesAlone q rest

variable {marks} {q : Char} {text : List Char}

/-- What is ASCII begins a character. -/
theorem breaks_of_ascii (h : ∀ c ∈ text, c.toNat < 0x80) :
    marks.breaks text = true := by
  cases text with
  | nil => rfl
  | cons c rest => rw [breaks, marks.ascii c (h c List.mem_cons_self), Bool.not_false]

/-- A word with a text of ASCII after it is a prefix in both senses. -/
theorem hasPrefix_append {word text : List Char} (h : ∀ c ∈ text, c.toNat < 0x80) :
    marks.hasPrefix word (word ++ text) = true := by
  have hword : word.isPrefixOf (word ++ text) = true :=
    List.isPrefixOf_iff_prefix.mpr (List.prefix_append word text)
  rw [hasPrefix, hword, List.drop_left, breaks_of_ascii h, Bool.and_self]

/-- A text without quotes has no quote that a mark follows. -/
theorem quotesAlone_of_not_mem (h : q ∉ text) :
    marks.quotesAlone q text = true := by
  induction text with
  | nil => rfl
  | cons c rest ih =>
    rw [List.mem_cons, not_or] at h
    rw [quotesAlone, ih h.2, bne_iff_ne.mpr (Ne.symm h.1), Bool.true_or, Bool.and_self]

/-- A quote that no mark follows is written twice wherever it stands. -/
theorem doubleAlone_eq (h : marks.quotesAlone q text = true) :
    marks.doubleAlone q text = double q text := by
  induction text with
  | nil => rfl
  | cons c rest ih =>
    rw [quotesAlone, Bool.and_eq_true, Bool.or_eq_true, bne_iff_ne] at h
    obtain ⟨hhead, hrest⟩ := h
    rw [doubleAlone, double, ih hrest]
    by_cases hc : c = q
    · have hbreaks : marks.breaks rest = true := hhead.resolve_left (not_not.mpr hc)
      rw [if_pos ⟨hc, hbreaks⟩, if_pos hc]
    · rw [if_neg fun hboth => hc hboth.1, if_neg hc]

/-- Writing quotes twice adds no other scalar. -/
theorem mem_of_mem_doubleAlone {c : Char} (h : c ∈ marks.doubleAlone q text) : c ∈ text := by
  induction text with
  | nil => exact h
  | cons d rest ih =>
    rw [doubleAlone] at h
    split at h
    next hd =>
      rcases List.mem_cons.mp h with rfl | h
      · exact hd.1 ▸ List.mem_cons_self
      · rcases List.mem_cons.mp h with rfl | h
        · exact hd.1 ▸ List.mem_cons_self
        · exact List.mem_cons_of_mem d (ih h)
    · rcases List.mem_cons.mp h with rfl | h
      · exact List.mem_cons_self
      · exact List.mem_cons_of_mem d (ih h)

/-- A quote that a mark follows is not written twice, so that the quoted scalar ends there,
with the mark after it. -/
theorem scanQuoted_doubleAlone (hq : q.toNat < 0x80) (h : marks.quotesAlone q text = false) :
    ∃ value c after, scanQuoted q (marks.doubleAlone q text ++ [q]) = some (value, c :: after) ∧
      c ∈ text ∧ marks.isMark c = true := by
  induction text with
  | nil => cases h
  | cons c rest ih =>
    rw [quotesAlone, Bool.and_eq_false_iff, Bool.or_eq_false_iff] at h
    rw [doubleAlone]
    by_cases hc : c = q
    · subst hc
      cases hbreaks : marks.breaks rest with
      | true =>
        -- this quote is written twice, and the scan goes on behind it
        have hrest : marks.quotesAlone c rest = false :=
          h.resolve_left fun hhead => by rw [hbreaks] at hhead; cases hhead.2
        obtain ⟨value, d, after, hscan, hmem, hmark⟩ := ih hrest
        refine ⟨c :: value, d, after, ?_, List.mem_cons_of_mem c hmem, hmark⟩
        rw [if_pos ⟨rfl, rfl⟩, List.cons_append, List.cons_append, scanQuoted,
          if_neg (not_not.mpr rfl), if_pos rfl, hscan]
        rfl
      | false =>
        cases rest with
        | nil => cases hbreaks
        | cons d rest =>
          have hmark : marks.isMark d = true := by
            rw [breaks, Bool.not_eq_false'] at hbreaks
            exact hbreaks
          have hd : d ≠ c := by
            rintro rfl
            rw [marks.ascii d hq] at hmark
            cases hmark
          refine ⟨[], d, marks.doubleAlone c rest ++ [c], ?_,
            List.mem_cons_of_mem c List.mem_cons_self, hmark⟩
          rw [if_neg (fun hboth => by cases hboth.2), doubleAlone, if_neg fun hboth => hd hboth.1,
            List.cons_append, List.cons_append, scanQuoted, if_neg (not_not.mpr rfl), if_neg hd]
    · have hrest : marks.quotesAlone q rest = false :=
        h.resolve_left fun hhead => absurd hhead.1 (by rw [bne_iff_ne.mpr hc]; decide)
      obtain ⟨value, d, after, hscan, hmem, hmark⟩ := ih hrest
      refine ⟨c :: value, d, after, ?_, List.mem_cons_of_mem c hmem, hmark⟩
      rw [if_neg fun hboth => hc hboth.1, List.cons_append, scanQuoted_cons_of_ne hc, hscan]
      rfl

end Marks

end Text
