import Mathlib.Data.List.Nodup
import GraphqlCrud.Proofs.Inputs.Ownership
/-!
Whose an input is. Names of models and keywords follow one another without a mark between them, so
that a name may begin with several models; the longest of them owns it. The inputs that resolvers
take of a model belong to that model, because no keyword stands inside of what follows its name.
-/
namespace GraphqlCrud.Inputs

open Schema

/-- The name is that of the model, then a keyword, then anything. -/
def Heads (m : Model) (inputName : String) : Prop :=
  ∃ keyword ∈ modelKeywords, ∃ rest, inputName = m.name ++ keyword ++ rest

/-- What is said of the owner of an input: it heads the name, and no model with a longer name, in
characters or in bytes, heads it; and there is no owner when no model heads it. -/
def IsOwner (document : Document) (inputName : String) : Option Model → Prop
  | some p => p ∈ document.models ∧ Heads p inputName ∧
      ∀ q ∈ document.models,
        (p.name.length < q.name.length ∨ p.name.utf8ByteSize < q.name.utf8ByteSize) →
          ¬ Heads q inputName
  | none => ∀ q ∈ document.models, ¬ Heads q inputName

/-- What follows the model's name in the names of the inputs that resolvers take. -/
def resolverSuffixes : List String := [
  "WhereInput", "WhereUniqueInput", "OrderByWithRelationInput", "CreateInput", "CreateManyInput",
  "UpdateInput", "UpdateManyMutationInput"]

variable {document : Document} {inputName : String}

theorem mem_owners_iff {m : Model} :
    m ∈ document.models.filter (belongsTo inputName) ↔ m ∈ document.models ∧ Heads m inputName := by
  rw [List.mem_filter, belongsTo_iff, Heads]

/-- Of all models that head a name the owner has the longest name, and begins with theirs. -/
theorem exists_middle_of_owner? {p : Model} (h : owner? document inputName = some p) {q : Model}
    (hq : q ∈ document.models) (heads : Heads q inputName) :
    ∃ middle, p.name = q.name ++ middle := by
  obtain ⟨-, k, -, rest, hp⟩ := mem_owners_iff.mp (mem_of_greatestBy h)
  have longest := le_of_greatestBy h q (mem_owners_iff.mpr ⟨hq, heads⟩)
  obtain ⟨k', -, rest', hq'⟩ := heads
  rw [String.append_assoc] at hp hq'
  obtain ⟨middle, same, -⟩ := Text.exists_middle_of_append_eq (hq'.symm.trans hp) longest
  exact ⟨middle, same⟩

theorem owner?_isOwner (document : Document) (inputName : String) :
    IsOwner document inputName (owner? document inputName) := by
  cases h : owner? document inputName with
  | none =>
    intro q hq heads
    have none := greatestBy_eq_none.mp h
    have member := mem_owners_iff.mpr ⟨hq, heads⟩
    rw [none] at member
    cases member
  | some p =>
    obtain ⟨hp, heads⟩ := mem_owners_iff.mp (mem_of_greatestBy h)
    refine ⟨hp, heads, ?_⟩
    intro q hq longer heads'
    obtain ⟨middle, same⟩ := exists_middle_of_owner? h hq heads'
    rw [same, String.length_append, String.utf8ByteSize_append] at longer
    omega

/-- A keyword stands in a suffix at its beginning only. -/
theorem eq_empty_of_suffix {suffix middle keyword rest : String} (hs : suffix ∈ resolverSuffixes)
    (hk : keyword ∈ modelKeywords) (same : suffix = middle ++ (keyword ++ rest)) : middle = "" := by
  have decided : ∀ suffix ∈ resolverSuffixes, ∀ keyword ∈ modelKeywords,
      ¬ keyword.toList <:+: suffix.toList.tail := by decide +kernel
  have chars := congrArg String.toList same
  rw [String.toList_append, String.toList_append] at chars
  cases hm : middle.toList with
  | nil => exact String.toList_injective hm
  | cons c before =>
    refine absurd ?_ (decided suffix hs keyword hk)
    rw [chars, hm, List.cons_append, List.tail_cons]
    exact ⟨before, rest.toList, by rw [List.append_assoc]⟩

/-- The inputs that resolvers take of a model are its own, whatever other models there are; and the
owner of any input is the model with the longest name that heads it. -/
theorem owner?_isLongest {document : Document}
    (distinct : (document.models.map (·.name)).Nodup) :
    (∀ m ∈ document.models, ∀ suffix ∈ resolverSuffixes,
      owner? document (m.name ++ suffix) = some m) ∧
    ∀ inputName, IsOwner document inputName (owner? document inputName) := by
  refine ⟨?_, owner?_isOwner document⟩
  intro m hm suffix hs
  have keyed : ∀ suffix ∈ resolverSuffixes, ∃ keyword ∈ modelKeywords,
      Text.begins keyword suffix = true := by decide
  obtain ⟨keyword, hk, begins⟩ := keyed suffix hs
  obtain ⟨rest, hrest⟩ := Text.begins_iff.mp begins
  have heads : Heads m (m.name ++ suffix) := ⟨keyword, hk, rest, by rw [hrest, String.append_assoc]⟩
  obtain ⟨p, found⟩ := Option.isSome_iff_exists.mp
    (isSome_owner?.mpr ⟨m, hm, belongsTo_iff.mpr heads⟩)
  obtain ⟨hp, k, hkey, rest', same⟩ := mem_owners_iff.mp (mem_of_greatestBy found)
  obtain ⟨middle, longer⟩ := exists_middle_of_owner? found hm heads
  -- What the owner's name has beyond the model's would put its keyword inside of the suffix.
  have inside : suffix = middle ++ (k ++ rest') := by
    rw [longer, String.append_assoc, String.append_assoc] at same
    exact (String.append_right_inj _).mp same
  rw [eq_empty_of_suffix hs hkey inside, String.append_empty] at longer
  rw [found, List.inj_on_of_nodup_map distinct hp hm longer]

/-- Models whose names begin one another, also with a keyword or with all of an input's name but its
last word. -/
def crowdedNames : Document where
  models := ["Use", "UserCreateMany", "User", "UserWhere", "UserWhereUniqueInput"].map fun name =>
    { name, fields := [] }

theorem owner?_isLongest_crowded :
    (crowdedNames.models.map (·.name)).Nodup ∧
      owner? crowdedNames "UserWhereUniqueInput" = some { name := "User", fields := [] } ∧
      owner? crowdedNames "UserCreateManyInput" = some { name := "User", fields := [] } ∧
      IsOwner crowdedNames "UserWhereWhereInput" (owner? crowdedNames "UserWhereWhereInput") := by
  have distinct : (crowdedNames.models.map (·.name)).Nodup := by decide
  have longest := owner?_isLongest distinct
  have user : { name := "User", fields := [] } ∈ crowdedNames.models := by decide
  refine ⟨distinct, ?_, ?_, longest.2 _⟩
  · exact longest.1 _ user "WhereUniqueInput" (by decide)
  · exact longest.1 _ user "CreateManyInput" (by decide)

end GraphqlCrud.Inputs
