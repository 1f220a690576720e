/-
Elements on the characters that they were read from.

What it means that the spans of a pattern are exact is said here without any reader. The elements of
a message cut its text into pieces, one behind the other with nothing between them, and the span of
an element is that of its piece. The cases of a statement stand in its piece with only blanks
between them, and each has a message of its own strictly between its braces.

* `Element.Covers`, `Tiles`, `CasesTile`: an element on its piece of a text, the elements of a
  message on a text, and the cases of a statement on a text;
* `Element.marks`: all marks of an element and of what is in it; `Tiles.within`: where elements tile
  a text, all their spans are spans of parts of it.
-/
import MessageCatalog.Pattern.Element
import MessageCatalog.Pattern.Escape
import MessageCatalog.Proofs.Pattern.Braces
import MessageCatalog.Proofs.Pattern.Position

namespace MessageCatalog.Pattern

open Plural (Key)

/-! ### Pieces of a text -/

/-- The text of a case: its key, blanks, and a message in braces. -/
def caseText (key gap body : List Char) : List Char :=
  key ++ gap ++ '{' :: (body ++ ['}'])

/-- Characters that are all blanks. -/
def AreBlanks (cs : List Char) : Prop :=
  ∀ c ∈ cs, Text.isSpace c = true

mutual

/-- An element on its piece of a text, behind other characters. A literal says what its piece says
without escapes. Any other element but a number sign is a block: its piece starts with a left brace
and ends with the one that matches it. -/
inductive Element.Covers : List Char → List Char → Element Span → Prop where
  | literal {front piece} :
      Element.Covers front piece (.literal (unescape (.ofList piece)) (spanOf front piece))
  | argument {front piece name} : IsBlock piece →
      Element.Covers front piece (.argument name (spanOf front piece))
  | call {front piece arg name style} : IsBlock piece →
      Element.Covers front piece (.call arg name style (spanOf front piece))
  | plural {front piece head text arg kind offset cases} : IsBlock piece →
      piece = '{' :: (head ++ text ++ ['}']) →
      CasesTile (fun word key => Key.ofText? (.ofList word) = some key) (front ++ '{' :: head) text
        cases →
      Element.Covers front piece (.plural arg kind offset cases (spanOf front piece))
  | select {front piece head text arg cases} : IsBlock piece →
      piece = '{' :: (head ++ text ++ ['}']) →
      CasesTile (fun word key => .ofList word = key) (front ++ '{' :: head) text cases →
      Element.Covers front piece (.select arg cases (spanOf front piece))
  | numberSign {front} : Element.Covers front ['#'] (.numberSign (spanOf front ['#']))

/-- The elements of a message on a text, behind other characters: one piece for each of them, and
nothing between them. -/
inductive Tiles : List Char → List Char → List (Element Span) → Prop where
  | nil {front} : Tiles front [] []
  | cons {front piece rest e es} : Element.Covers front piece e → Tiles (front ++ piece) rest es →
      Tiles front (piece ++ rest) (e :: es)

/-- The cases of a statement on a text, behind other characters: between two of them there is
nothing but blanks. The span of a case starts at its key and ends with the right brace that matches
the left one behind the key. -/
inductive CasesTile : {κ : Type} → (List Char → κ → Prop) → List Char → List Char →
    List (Case κ Span (Element Span)) → Prop where
  | nil {κ front blanks} {reads : List Char → κ → Prop} : AreBlanks blanks →
      CasesTile reads front blanks []
  | cons {κ front blanks word gap body rest es cases} {reads : List Char → κ → Prop} {key : κ} :
      AreBlanks blanks → reads word key → AreBlanks gap → Braced true body →
      Tiles (front ++ blanks ++ word ++ gap ++ ['{']) body es →
      CasesTile reads (front ++ blanks ++ caseText word gap body) rest cases →
      CasesTile reads front (blanks ++ caseText word gap body ++ rest)
        (⟨key, es, spanOf (front ++ blanks) (caseText word gap body)⟩ :: cases)

end

/-! ### Longer texts -/

/-- More elements on the text behind that of the others. -/
lemma Tiles.append {front piece more : List Char} {es fs : List (Element Span)} :
    Tiles front piece es → Tiles (front ++ piece) more fs → Tiles front (piece ++ more) (es ++ fs)
  | .nil, hfs => by simpa using hfs
  | .cons he hes, hfs => by
      rw [List.append_assoc, List.cons_append]
      exact .cons he (hes.append (by rwa [List.append_assoc]))

lemma Tiles.concat {front piece more : List Char} {es : List (Element Span)} {e : Element Span}
    (hes : Tiles front piece es) (he : e.Covers (front ++ piece) more) :
    Tiles front (piece ++ more) (es ++ [e]) := by
  refine hes.append ?_
  rw [← List.append_nil more]
  exact .cons he .nil

lemma areBlanks_nil : AreBlanks [] := fun _ hc => nomatch hc

lemma AreBlanks.concat {cs : List Char} {c : Char} (h : AreBlanks cs) (hc : Text.isSpace c = true) :
    AreBlanks (cs ++ [c]) := by
  intro d hd
  rcases List.mem_append.mp hd with hd | hd
  · exact h d hd
  · rwa [List.mem_singleton.mp hd]

lemma AreBlanks.braced {cs : List Char} (h : AreBlanks cs) : Braced false cs := by
  induction cs with
  | nil => exact .nil
  | cons c cs ih =>
      obtain ⟨hc, hcs⟩ := List.forall_mem_cons.mp h
      exact (braced_blank hc).append (ih hcs)

namespace CasesTile

variable {κ : Type} {reads : List Char → κ → Prop} {front text : List Char}
  {cases : List (Case κ Span (Element Span))}

/-- Blanks may stand behind the last case. -/
lemma blank {c : Char} (hc : Text.isSpace c = true) : ∀ {front text}
    {cases : List (Case κ Span (Element Span))}, CasesTile reads front text cases →
      CasesTile reads front (text ++ [c]) cases
  | _, _, _, .nil hblanks => .nil (hblanks.concat hc)
  | _, _, _, .cons hblanks hkey hgap hbody htiles hrest => by
      rw [List.append_assoc]
      exact .cons hblanks hkey hgap hbody htiles (hrest.blank hc)

/-- One more case on the text behind that of the others. -/
lemma concat {word gap body : List Char} {key : κ} {es : List (Element Span)}
    (hkey : reads word key) (hgap : AreBlanks gap) (hbody : Braced true body) : ∀ {front text}
      {cases : List (Case κ Span (Element Span))}, CasesTile reads front text cases →
        Tiles (front ++ text ++ word ++ gap ++ ['{']) body es →
        CasesTile reads front (text ++ caseText word gap body)
          (cases ++ [⟨key, es, spanOf (front ++ text) (caseText word gap body)⟩])
  | _, _, _, .nil hblanks, htiles => by
      rw [← List.append_nil (_ ++ caseText word gap body)]
      exact .cons hblanks hkey hgap hbody htiles (.nil areBlanks_nil)
  | _, _, _, .cons hblanks hfirst hgap' hbody' htiles' hrest, htiles => by
      have hmore := hrest.concat hkey hgap hbody (by simpa only [List.append_assoc] using htiles)
      have hall := CasesTile.cons hblanks hfirst hgap' hbody' htiles' hmore
      simpa only [List.append_assoc, List.cons_append] using hall

end CasesTile

/-! ### Marks -/

namespace Element

variable {σ : Type}

mutual

/-- The marks of an element and of everything in it. -/
def marks : Element σ → List σ
  | .literal _ mark | .argument _ mark | .call _ _ _ mark | .numberSign mark => [mark]
  | .plural _ _ _ cases mark => mark :: marksOfPlural cases
  | .select _ cases mark => mark :: marksOfSelect cases

/-- The marks of all elements. -/
def marksOf : List (Element σ) → List σ
  | [] => []
  | e :: rest => e.marks ++ marksOf rest

/-- The marks of plural cases and of everything in them. -/
def marksOfPlural : List (Case Key σ (Element σ)) → List σ
  | [] => []
  | ⟨_, body, mark⟩ :: rest => mark :: (marksOf body ++ marksOfPlural rest)

/-- The marks of select cases and of everything in them. -/
def marksOfSelect : List (Case String σ (Element σ)) → List σ
  | [] => []
  | ⟨_, body, mark⟩ :: rest => mark :: (marksOf body ++ marksOfSelect rest)

end

end Element

/-- All of some spans are spans of parts of a text. -/
def AllWithin (text : List Char) (spans : List Span) : Prop :=
  ∀ span ∈ spans, span.Within text

lemma AllWithin.append {text : List Char} {spans others : List Span} (h : AllWithin text spans)
    (hothers : AllWithin text others) : AllWithin text (spans ++ others) := by
  intro span hspan
  rcases List.mem_append.mp hspan with hspan | hspan
  · exact h span hspan
  · exact hothers span hspan

lemma AllWithin.cons {text : List Char} {span : Span} {others : List Span} (h : span.Within text)
    (hothers : AllWithin text others) : AllWithin text (span :: others) :=
  List.forall_mem_cons.mpr ⟨h, hothers⟩

/-- In a longer text the spans are those of the same parts. -/
lemma AllWithin.longer {text : List Char} {spans : List Span} (h : AllWithin text spans)
    (more : List Char) : AllWithin (text ++ more) spans :=
  fun span hspan => (h span hspan).append more

/-- The span of a case, with spans inside its braces and behind it. -/
lemma allWithin_caseText {front blanks word gap body rest : List Char} {spans others : List Span}
    (hbody : AllWithin (front ++ blanks ++ word ++ gap ++ ['{'] ++ body) spans)
    (hrest : AllWithin (front ++ blanks ++ caseText word gap body ++ rest) others) :
    AllWithin (front ++ (blanks ++ caseText word gap body ++ rest))
      (spanOf (front ++ blanks) (caseText word gap body) :: (spans ++ others)) := by
  have htext : front ++ (blanks ++ caseText word gap body ++ rest) =
      front ++ blanks ++ caseText word gap body ++ rest := by
    simp only [List.append_assoc]
  have hinside : front ++ blanks ++ caseText word gap body ++ rest =
      front ++ blanks ++ word ++ gap ++ ['{'] ++ body ++ ('}' :: rest) := by
    simp [caseText]
  rw [htext]
  refine .cons ((within_spanOf _ _).append rest) (.append ?_ hrest)
  rw [hinside]
  exact hbody.longer _

mutual

lemma Element.Covers.within {front piece : List Char} {e : Element Span} :
    e.Covers front piece → AllWithin (front ++ piece) e.marks
  | .literal | .argument _ | .call _ | .numberSign => by
      rw [Element.marks]
      exact .cons (within_spanOf _ _) fun _ h => nomatch h
  | .plural _ hpiece hcases => by
      subst hpiece
      rw [Element.marks]
      refine .cons (within_spanOf _ _) ?_
      have hall := hcases.within_plural.longer ['}']
      simpa only [List.append_assoc, List.cons_append] using hall
  | .select _ hpiece hcases => by
      subst hpiece
      rw [Element.marks]
      refine .cons (within_spanOf _ _) ?_
      have hall := hcases.within_select.longer ['}']
      simpa only [List.append_assoc, List.cons_append] using hall

/-- **Where elements tile a text, all their spans are spans of parts of it**, and so are those of
everything in them. -/
theorem Tiles.within {front piece : List Char} {es : List (Element Span)} :
    Tiles front piece es → AllWithin (front ++ piece) (Element.marksOf es)
  | .nil => fun _ h => nomatch h
  | .cons he hes => by
      rw [Element.marksOf, ← List.append_assoc]
      exact (he.within.longer _).append hes.within

lemma CasesTile.within_plural {reads : List Char → Key → Prop} {front text : List Char}
    {cases : List (Case Key Span (Element Span))} :
    CasesTile reads front text cases → AllWithin (front ++ text) (Element.marksOfPlural cases)
  | .nil _ => fun _ h => nomatch h
  | .cons _ _ _ _ hbody hrest => allWithin_caseText hbody.within hrest.within_plural

lemma CasesTile.within_select {reads : List Char → String → Prop} {front text : List Char}
    {cases : List (Case String Span (Element Span))} :
    CasesTile reads front text cases → AllWithin (front ++ text) (Element.marksOfSelect cases)
  | .nil _ => fun _ h => nomatch h
  | .cons _ _ _ _ hbody hrest => allWithin_caseText hbody.within hrest.within_select

end

end MessageCatalog.Pattern
