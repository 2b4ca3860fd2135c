import TradeWire.Proofs.Schema.Reading
import TradeWire.Proofs.Schema.Tables

/-! How the usages of a schema document are read. -/

set_option autoImplicit false
set_option relaxedAutoImplicit false

namespace TradeWire

open Markup (Element)

namespace Schema

/-- What elements declare in a container, in the order in which it is read. `parent` is the name of the element
that they stand in. -/
inductive DeclaresUsages : String → String → List Element → List (UsageKey × Usage) → Prop where
  | nil (container parent : String) : DeclaresUsages container parent [] []
  | usage {container parent : String} {e : Element} {rest : List Element} {usage : Usage}
      {more : List (UsageKey × Usage)} (given : e.value "usage" ≠ "")
      (known : Usage.ofWord? (e.value "usage") = some usage) (later : DeclaresUsages container parent rest more) :
      DeclaresUsages container parent (e :: rest) ((⟨container, e.value "name"⟩, usage) :: more)
  | group {container parent : String} {e : Element} {rest : List Element} {inner more : List (UsageKey × Usage)}
      (silent : e.value "usage" = "") (tag : e.tag = "Group")
      (below : DeclaresUsages (parent ++ "." ++ e.value "name") (e.value "name") e.children inner)
      (later : DeclaresUsages container parent rest more) :
      DeclaresUsages container parent (e :: rest) (inner ++ more)
  | other {container parent : String} {e : Element} {rest : List Element} {more : List (UsageKey × Usage)}
      (silent : e.value "usage" = "") (notGroup : e.tag ≠ "Group")
      (later : DeclaresUsages container parent rest more) : DeclaresUsages container parent (e :: rest) more

private theorem readUsage_eq_ok {container parent : String} {table out : List (UsageKey × Usage)} {e : Element}
    (read : readUsage container parent table e = .ok out) :
    (∃ usage, e.value "usage" ≠ "" ∧ Usage.ofWord? (e.value "usage") = some usage ∧
        out = put ⟨container, e.value "name"⟩ usage table) ∨
      (e.value "usage" = "" ∧ e.tag = "Group" ∧
        readUsages (parent ++ "." ++ e.value "name") (e.value "name") table e.children = .ok out) ∨
      (e.value "usage" = "" ∧ e.tag ≠ "Group" ∧ out = table) := by
  obtain ⟨name, attributes, children⟩ := e
  have own : ∀ base,
      (Element.mk name attributes []).value base = (Element.mk name attributes children).value base := fun _ => rfl
  have tag : (Element.mk name attributes children).tag = name.base := rfl
  simp only [readUsage, bne_iff_ne, beq_iff_eq, own] at read
  split at read
  · rename_i given
    split at read
    · cases read
    · rename_i usage known
      cases read
      exact .inl ⟨usage, given, known, rfl⟩
  · rename_i silent
    split at read
    · rename_i group
      exact .inr (.inl ⟨not_not.mp silent, tag.trans group, read⟩)
    · rename_i notGroup
      cases read
      exact .inr (.inr ⟨not_not.mp silent, tag ▸ notGroup, rfl⟩)

private theorem readUsages_cons_eq_ok {container parent : String} {table out : List (UsageKey × Usage)} {e : Element}
    {rest : List Element} :
    readUsages container parent table (e :: rest) = .ok out ↔
      ∃ more, readUsage container parent table e = .ok more ∧
        readUsages container parent more rest = .ok out := by
  rw [readUsages]
  cases readUsage container parent table e with
  | error fault => simp
  | ok more => simp

private theorem putAll_append (table first second : List (UsageKey × Usage)) :
    putAll table (first ++ second) = putAll (putAll table first) second :=
  List.foldl_append ..

private theorem declaresUsages_of_readUsages : ∀ (es : List Element) {container parent : String}
    {table out : List (UsageKey × Usage)}, readUsages container parent table es = .ok out →
      ∃ entries, DeclaresUsages container parent es entries ∧ out = putAll table entries
  | [], container, parent, table, out, read => by
    rw [readUsages] at read
    cases read
    exact ⟨[], .nil container parent, rfl⟩
  | e :: rest, container, parent, table, out, read => by
    have smaller := sizeOf_children_lt e rest
    obtain ⟨more, here, read⟩ := readUsages_cons_eq_ok.mp read
    obtain ⟨others, later, rfl⟩ := declaresUsages_of_readUsages rest read
    rcases readUsage_eq_ok here with
      ⟨usage, given, known, rfl⟩ | ⟨silent, tag, inside⟩ | ⟨silent, notGroup, rfl⟩
    · exact ⟨_, .usage given known later, rfl⟩
    · obtain ⟨inner, below, rfl⟩ := declaresUsages_of_readUsages e.children inside
      exact ⟨_, .group silent tag below later, (putAll_append ..).symm⟩
    · exact ⟨others, .other silent notGroup later, rfl⟩
termination_by es => sizeOf es

def DeclareUsages (messages : List Element) (entries : List (UsageKey × Usage)) : Prop :=
  ∃ parts, List.Forall₂ (fun (e : Element) part =>
    DeclaresUsages (e.value "name") (e.value "name") e.children part) messages parts ∧ entries = parts.flatten

private theorem declareUsages_of_readAllUsages {messages : List Element} {table out : List (UsageKey × Usage)}
    (read : readAllUsages table messages = .ok out) :
    ∃ entries, DeclareUsages messages entries ∧ out = putAll table entries := by
  induction messages generalizing table with
  | nil =>
    cases read
    exact ⟨[], ⟨[], .nil, rfl⟩, rfl⟩
  | cons e rest ih =>
    rw [readAllUsages] at read
    split at read
    · cases read
    · rename_i more here
      obtain ⟨part, declared, rfl⟩ := declaresUsages_of_readUsages e.children here
      obtain ⟨entries, ⟨parts, related, rfl⟩, rfl⟩ := ih read
      exact ⟨part ++ parts.flatten, ⟨part :: parts, .cons declared related, rfl⟩, (putAll_append ..).symm⟩

end Schema

open Schema

/-- A model has the usages that the messages of its document declare, the last one for each key. -/
theorem Model.usages_of_parse {document : Bytes} {m : Model} (parsed : Model.parse document = .ok m) :
    (m.usages.map (·.1)).Nodup ∧
    ∃ root entries, Markup.root document = .ok root ∧
      DeclareUsages (root.nestedNamed "ApplicationMessages" "ApplicationMessage") entries ∧
        ∀ key, m.usages.lookup key = entries.reverse.lookup key := by
  obtain ⟨root, _, found, reads⟩ := Model.readFrom_of_parse parsed
  obtain ⟨entries, declared, usages⟩ := declareUsages_of_readAllUsages reads.usages
  rw [usages]
  have distinct : (([] : List (UsageKey × Usage)).map (·.1)).Nodup := List.nodup_nil
  refine ⟨nodup_putAll distinct entries, root, entries, found, declared, ?_⟩
  intro key
  rw [lookup_putAll, List.lookup_nil, Option.or_none]

end TradeWire
