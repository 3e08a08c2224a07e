import GraphqlCrud.Proofs.Script.Code
import GraphqlCrud.Proofs.Text.Visible
/-!
The two printed forms of an expression. The form over several lines is the one on a single line but
for white space and for commas after the last member of an object or element of an array.
-/
namespace GraphqlCrud.Script

open Layout Text

/-! Commas before closing marks -/

/-- Behind the commas that it begins with, the text goes on with a closing brace or bracket. -/
def closes (s : List Char) : Bool :=
  match s.dropWhile (· == ',') with
  | '\x7d' :: _ => true
  | ']' :: _ => true
  | _ => false

/-- The text without the runs of commas that stand directly before a closing brace or bracket. -/
def withoutClosingCommas : List Char → List Char
  | [] => []
  | c :: s =>
    if c = ',' ∧ closes s = true then withoutClosingCommas s else c :: withoutClosingCommas s

/-- What of a text remains when all white space is deleted, and then the commas before closing
marks. -/
def gist (text : String) : String := String.ofList (withoutClosingCommas (visible text))

/-- A text closes just if it begins with a closing mark once such commas are gone. -/
theorem closes_iff (s : List Char) : closes s = true ↔
    (withoutClosingCommas s).head? = some '\x7d' ∨ (withoutClosingCommas s).head? = some ']' := by
  induction s with
  | nil => simp [closes, withoutClosingCommas]
  | cons c s ih =>
    by_cases comma : c = ','
    · subst comma
      have passed : closes (',' :: s) = closes s := rfl
      rw [passed, withoutClosingCommas]
      split
      · exact ih
      · next open_ => simp [show closes s = false by simpa using open_]
    · have kept : withoutClosingCommas (c :: s) = c :: withoutClosingCommas s :=
        if_neg fun both => comma both.1
      rw [kept, List.head?_cons, closes, List.dropWhile_cons_of_neg (by simp [comma])]
      split
      · next same => simp [(List.cons.inj same).1]
      · next same => simp [(List.cons.inj same).1]
      · next brace bracket =>
        refine iff_of_false Bool.false_ne_true ?_
        rintro (same | same)
        · exact brace s (by rw [Option.some.inj same])
        · exact bracket s (by rw [Option.some.inj same])

/-- The texts are the same but for commas before closing marks, whatever comes after them. -/
def Alike (s t : List Char) : Prop :=
  ∀ later, withoutClosingCommas (s ++ later) = withoutClosingCommas (t ++ later)

theorem Alike.refl (s : List Char) : Alike s s := fun _ => rfl

theorem Alike.trans {s t u : List Char} (first : Alike s t) (second : Alike t u) : Alike s u :=
  fun later => (first later).trans (second later)

theorem Alike.cons {s t : List Char} (h : Alike s t) (c : Char) : Alike (c :: s) (c :: t) := by
  intro later
  -- Whether the character goes depends on the rest alone, and on no more of it than how it begins.
  have closing : closes (s ++ later) = closes (t ++ later) := by
    rw [Bool.eq_iff_iff, closes_iff, closes_iff, h later]
  rw [List.cons_append, List.cons_append, withoutClosingCommas, withoutClosingCommas, h later,
    closing]

theorem Alike.append_left {s t : List Char} (h : Alike s t) (front : List Char) :
    Alike (front ++ s) (front ++ t) := by
  induction front with
  | nil => exact h
  | cons c front ih => exact ih.cons c

theorem Alike.append {s t u v : List Char} (first : Alike s t) (second : Alike u v) :
    Alike (s ++ u) (t ++ v) := by
  refine Alike.trans (t := t ++ u) (fun later => ?_) (second.append_left t)
  rw [List.append_assoc, List.append_assoc]
  exact first (u ++ later)

theorem Alike.gist_eq {s t : String} (h : Alike (visible s) (visible t)) : gist s = gist t := by
  have same := h []
  rw [List.append_nil, List.append_nil] at same
  rw [gist, gist, same]

theorem alike_closingComma {mark : Char} (closing : mark = '\x7d' ∨ mark = ']') :
    Alike [',', mark] [mark] := by
  intro later
  have closed : closes (mark :: later) = true := by
    rcases closing with rfl | rfl <;> rfl
  exact if_pos ⟨rfl, closed⟩

/-- Commas may stand between the items of a list or after each of them. -/
theorem alike_separated (items : List (List Char)) (filled : items ≠ []) {mark : Char}
    (closing : mark = '\x7d' ∨ mark = ']') :
    Alike (items.flatMap (· ++ [',']) ++ [mark]) ([','].intercalate items ++ [mark]) := by
  induction items with
  | nil => exact absurd rfl filled
  | cons item items ih =>
    cases items with
    | nil =>
      have last := (alike_closingComma closing).append_left item
      simpa using last
    | cons next rest =>
      have later := (ih (List.cons_ne_nil next rest)).append_left (item ++ [','])
      simpa [List.intercalate, List.append_assoc] using later

/-! Objects -/

theorem visible_inward (line : String) : visible (inward line) = visible line := by
  by_cases empty : line = ""
  · rw [empty]
    rfl
  · have margin : visible "  " = [] := by decide
    rw [inward_of_ne_empty empty, visible_append, margin, List.nil_append]

theorem visible_map_inward (ls : List String) :
    (ls.map inward).flatMap visible = ls.flatMap visible := by
  rw [List.flatMap_map]
  exact List.flatMap_congr fun line _ => visible_inward line

/-- Code that is spliced in shows what it shows elsewhere. -/
theorem visible_codeBetween (head code tail : String) :
    (renderedLines (codeBetween head code tail)).flatMap visible =
      visible head ++ visible code ++ visible tail := by
  have shown : (lines (trimEnd code)).flatMap visible = visible code := by
    rw [visible_lines, visible_trimEnd]
  cases read : lines (trimEnd code) with
  | nil =>
    rw [read, List.flatMap_nil] at shown
    rw [codeBetween, read, renderedLines_line, renderedLines_nil, List.flatMap_singleton,
      visible_append, ← shown, List.append_nil]
  | cons first rest =>
    rw [read, List.flatMap_cons] at shown
    rcases List.eq_nil_or_concat rest with rfl | ⟨mid, last, rfl⟩
    · rw [List.flatMap_nil, List.append_nil] at shown
      rw [codeBetween, read, renderedLines_line, renderedLines_nil, List.flatMap_singleton,
        visible_append, visible_append, shown]
    · rw [List.concat_eq_append] at read shown
      rw [codeBetween_of_lines read, renderedLines_lines, ← shown]
      simp [List.append_assoc]

theorem blocks_value_ne_nil (key : String) (value : Expr) : value.blocks key ≠ [] := by
  cases value with
  | text value => simp [Expr.blocks]
  | template value => simp [Expr.blocks]
  | array value => simp [Expr.blocks]
  | code value =>
    rw [Expr.blocks, propertyLines]
    exact codeBetween_ne_nil _ _ _
  | arrow params isAsync body =>
    rw [Expr.blocks, propertyLines]
    exact codeBetween_ne_nil _ _ _
  | object members => cases members <;> simp [Expr.blocks]

theorem blocks_ne_nil (m : Member) : m.blocks ≠ [] := by
  cases m with
  | spread code => simp [Member.blocks]
  | property key value =>
    rw [Member.blocks]
    split
    · simp
    · exact blocks_value_ne_nil _ value

theorem visible_inlineObject {members : ObjectLiteral} (filled : members ≠ []) :
    visible (inlineObject members) =
      '\x7b' :: ([','].intercalate (members.map fun m => visible m.inline) ++ ['\x7d']) := by
  obtain ⟨m, rest, rfl⟩ := List.exists_cons_of_ne_nil filled
  have opening : visible "\x7b " = ['\x7b'] := by decide
  have comma : visible ", " = [','] := by decide
  have closing : visible " \x7d" = ['\x7d'] := by decide
  rw [inlineObject, inlineMembers_eq_map, ← List.map_cons, visible_append, visible_append,
    visible_intercalate, opening, comma, closing, List.map_map]
  rfl

/-- What a member shows over several lines is what it shows on one, and a comma. -/
def MemberAlike (m : Member) : Prop :=
  Alike ((renderedLines m.blocks).flatMap visible) (visible m.inline ++ [','])

theorem alike_members {members : ObjectLiteral} (h : ∀ m ∈ members, MemberAlike m) :
    Alike ((renderedLines (memberBlocks members)).flatMap visible)
      (members.flatMap fun m => visible m.inline ++ [',']) := by
  induction members with
  | nil => exact .refl _
  | cons m rest ih =>
    obtain ⟨first, others⟩ := List.forall_mem_cons.mp h
    rw [memberBlocks, renderedLines_append, List.flatMap_append, List.flatMap_cons]
    exact first.append (ih others)

/-- The members of an object and its closing brace. -/
theorem alike_body {members : ObjectLiteral} (filled : members ≠ [])
    (h : ∀ m ∈ members, MemberAlike m) :
    Alike ('\x7b' :: ((renderedLines (memberBlocks members)).flatMap visible ++ ['\x7d']))
      (visible (inlineObject members)) := by
  rw [visible_inlineObject filled]
  apply Alike.cons
  have separated := alike_separated (members.map fun m => visible m.inline) (by simpa using filled)
    (.inl rfl)
  rw [List.flatMap_map] at separated
  exact ((alike_members h).append (.refl _)).trans separated

theorem visible_line (text : String) :
    (renderedLines [.line (text ++ ",")]).flatMap visible = visible text ++ [','] := by
  rw [renderedLines_line, renderedLines_nil, List.flatMap_singleton, visible_append]
  rfl

theorem visible_propertyLines (key code : String) :
    (renderedLines (propertyLines key code)).flatMap visible =
      visible (key ++ ": " ++ code) ++ [','] := by
  rw [propertyLines, visible_codeBetween, visible_append (key ++ ": ") code]
  rfl

theorem visible_group (header footer : String) (body : List Block) :
    (renderedLines [.group header body (some footer)]).flatMap visible =
      visible header ++ ((renderedLines body).flatMap visible ++ visible footer) := by
  rw [renderedLines_group, renderedLines_nil, List.flatMap_cons, List.flatMap_append,
    visible_map_inward, List.flatMap_singleton]

-- By recursion on the literal. Only an object with members has lines of its own within it.
mutual
theorem alike_value (key : String) : ∀ value : Expr,
    Alike ((renderedLines (value.blocks key)).flatMap visible)
      (visible (key ++ ": " ++ value.inline) ++ [','])
  | .text value => by
    rw [Expr.blocks, Expr.inline, visible_line]
    exact .refl _
  | .template value => by
    rw [Expr.blocks, Expr.inline, visible_line]
    exact .refl _
  | .array value => by
    rw [Expr.blocks, Expr.inline, visible_line]
    exact .refl _
  | .code value => by
    rw [Expr.blocks, Expr.inline, visible_propertyLines]
    exact .refl _
  | .arrow params isAsync body => by
    rw [Expr.blocks, Expr.inline, visible_propertyLines]
    exact .refl _
  | .object [] => by
    have braces : key ++ ": \x7b\x7d," = key ++ ": " ++ "\x7b\x7d" ++ "," := by
      rw [String.append_assoc, String.append_assoc]
      rfl
    rw [Expr.blocks, Expr.inline, inlineObject, braces, visible_line]
    exact .refl _
  | .object (m :: rest) => by
    have members := List.forall_mem_cons.mpr ⟨alike_member m, alike_all rest⟩
    have opening : visible (key ++ ": \x7b") = visible (key ++ ": ") ++ ['\x7b'] := by
      rw [visible_append, visible_append, List.append_assoc]
      rfl
    have closing : visible "\x7d," = ['\x7d'] ++ [','] := by decide
    have whole : m.blocks ++ memberBlocks rest = memberBlocks (m :: rest) := by rw [memberBlocks]
    rw [Expr.blocks, Expr.inline, whole, visible_group, opening, closing,
      ← List.append_assoc _ _ [','], ← List.append_assoc, List.append_assoc _ ['\x7b'],
      visible_append (key ++ ": ")]
    exact ((alike_body (List.cons_ne_nil m rest) members).append_left _).append (.refl _)

theorem alike_member : ∀ m : Member, MemberAlike m
  | .spread code => by
    rw [MemberAlike, Member.blocks, Member.inline, visible_line]
    exact .refl _
  | .property key value => by
    have h := alike_value (propertyKey key) value
    rw [MemberAlike, Member.blocks, Member.inline]
    split
    · rw [visible_line]
      exact .refl _
    · exact h

theorem alike_all : ∀ members : List Member, ∀ m ∈ members, MemberAlike m
  | [] => nofun
  | m :: rest => List.forall_mem_cons.mpr ⟨alike_member m, alike_all rest⟩
end

theorem gist_object (o : ObjectLiteral) : gist o.multiline = gist o.inline := by
  cases o with
  | nil => rfl
  | cons m rest =>
    have filled : memberBlocks (m :: rest) ≠ [] := by
      rw [memberBlocks]
      exact List.append_ne_nil_of_left_ne_nil (blocks_ne_nil m) _
    have shown : visible (ObjectLiteral.multiline (m :: rest)) =
        '\x7b' :: ((renderedLines (memberBlocks (m :: rest))).flatMap visible ++ ['\x7d']) := by
      have opening : visible ("\x7b" ++ "\n") = ['\x7b'] := by decide
      have closing : visible "\x7d" = ['\x7d'] := by decide
      rw [multiline_eq_ended filled, visible_append, visible_append, visible_ended,
        visible_map_inward, opening, closing]
      rfl
    apply Alike.gist_eq
    rw [shown]
    exact alike_body (List.cons_ne_nil m rest) (alike_all (m :: rest))

/-! Arrays and chains of calls -/

theorem visible_elements (elements : List Element) :
    visible (String.join (elements.map fun e => "  " ++ e.written ++ ",\n")) =
      (elements.map fun e => visible e.written).flatMap (· ++ [',']) := by
  rw [visible_join, List.flatMap_map, List.flatMap_map]
  refine List.flatMap_congr fun e _ => ?_
  rw [visible_append, visible_append]
  rfl

theorem gist_array (a : ArrayLiteral) : gist a.multiline = gist a.inline := by
  apply Alike.gist_eq
  rw [ArrayLiteral.multiline, ArrayLiteral.inline]
  split
  · next empty =>
    rw [empty]
    exact .refl _
  · next filled =>
    have below : visible "[\n" = ['['] := by decide
    have opening : visible "[" = ['['] := by decide
    have closing : visible "]" = [']'] := by decide
    have comma : visible ", " = [','] := by decide
    have separated := alike_separated (a.elements.map fun e => visible e.written)
      (by simpa using filled) (.inr rfl)
    simp only [visible_append, visible_elements, visible_intercalate, List.map_map, below, opening,
      closing, comma, List.append_assoc ['[']]
    exact (separated.append_left ['[']).append (.refl (visible a.constMark))

theorem gist_chain (c : CallChain) : gist c.multiline = gist c.inline := by
  have call (c : MethodCall) : visible ("\n  ." ++ c.written) = visible ("." ++ c.written) := by
    rw [visible_append, visible_append]
    rfl
  have shown : visible c.multiline = visible c.inline := by
    rw [CallChain.multiline, CallChain.inline]
    split
    · next none => rw [none, List.map_nil, String.join_nil, String.append_empty]
    · next first rest calls =>
      rw [calls, List.map_cons, String.join_cons, visible_append, visible_append c.receiver,
        visible_append ("." ++ _), visible_join, visible_join, List.flatMap_map, List.flatMap_map]
      simp [call, List.append_assoc]
  rw [gist, gist, shown]

/-- The form over several lines and the one on a single line are the same but for white space and
commas before closing marks. -/
theorem printedForms_sameGist :
    (∀ o : ObjectLiteral, gist o.multiline = gist o.inline) ∧
    (∀ a : ArrayLiteral, gist a.multiline = gist a.inline) ∧
    (∀ c : CallChain, gist c.multiline = gist c.inline) :=
  ⟨gist_object, gist_array, gist_chain⟩

example : ObjectLiteral.multiline [.code "a" "1,"] = "\x7b\n  a: 1,,\n\x7d" ∧
    gist "\x7b\n  a: 1,,\n\x7d" = gist "\x7b a: 1, \x7d" := by decide +kernel

end GraphqlCrud.Script
