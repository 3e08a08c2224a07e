import Mathlib.Data.List.Count
import GraphqlCrud.Proofs.Script.Code
/-!
How many line feeds rendered code holds. Code that is spliced in loses no line feed and gains none,
whatever else becomes of its lines.
-/
namespace GraphqlCrud.Text

def feeds (s : String) : Nat := s.toList.count '\n'

theorem feeds_append (s t : String) : feeds (s ++ t) = feeds s + feeds t := by
  rw [feeds, String.toList_append, List.count_append]
  rfl

theorem feeds_ended_cons (line : String) (ls : List String) :
    feeds (ended (line :: ls)) = feeds line + 1 + feeds (ended ls) := by
  rw [ended_cons, feeds_append, feeds_append]
  rfl

theorem feeds_ended_map {g : String → String} (same : ∀ l, feeds (g l) = feeds l)
    (ls : List String) : feeds (ended (ls.map g)) = feeds (ended ls) := by
  induction ls with
  | nil => rfl
  | cons line ls ih => rw [List.map_cons, feeds_ended_cons, feeds_ended_cons, same, ih]

theorem feeds_dropReturns (s : List Char) : (dropReturns s).count '\n' = s.count '\n' := by
  induction s using dropReturns.induct with
  | case1 => rfl
  | case2 s ih => simp [dropReturns_pair, ih]
  | case3 c s alone ih => rw [dropReturns.eq_3 _ _ alone, List.count_cons, List.count_cons, ih]

theorem feeds_unreturned (s : String) : feeds (unreturned s) = feeds s := by
  rw [feeds, unreturned, String.toList_ofList, feeds_dropReturns]
  rfl

end GraphqlCrud.Text

namespace GraphqlCrud.Script

open Layout Text

theorem feeds_inward (line : String) : feeds (inward line) = feeds line := by
  by_cases empty : line = ""
  · rw [empty]
    rfl
  · rw [inward_of_ne_empty empty, feeds_append]
    exact Nat.zero_add _

theorem feeds_codeBetween {code : String} (solid : IsSolid code) (head tail : String) :
    feeds (ended (renderedLines (codeBetween head code tail))) =
      feeds head + feeds code + feeds tail + 1 := by
  rw [text_codeBetween solid, feeds_append, feeds_append, feeds_append, feeds_unreturned]
  rfl

theorem feeds_multiline {o : ObjectLiteral} (filled : memberBlocks o ≠ []) :
    feeds o.multiline = feeds (ended (renderedLines (memberBlocks o))) + 1 := by
  have opening : feeds ("\x7b" ++ "\n") = 1 := rfl
  have closing : feeds "\x7d" = 0 := rfl
  rw [multiline_eq_ended filled, feeds_append, feeds_append, feeds_ended_map feeds_inward, opening,
    closing, Nat.add_zero, Nat.add_comm]

end GraphqlCrud.Script
