import Agentive.Delimited
import Agentive.Message

/-! The flattened form of compiled instructions, in which keys and texts are escaped, and the reader
that takes the fragments out of it again. -/

namespace Agentive

/-- One turn of the loop of `escape_xml`. -/
def pushEscaped (output : String) (character : Char) : String :=
  match character with
  | '&' => output ++ "&amp;"
  | '<' => output ++ "&lt;"
  | '>' => output ++ "&gt;"
  | '"' => output ++ "&quot;"
  | '\'' => output ++ "&apos;"
  | character => output.push character

def escapeXml (output value : String) : String := value.toList.foldl pushEscaped output

def renderInstruction (output key text : String) : String :=
  let output := output ++ "<fragment key=\""
  let output := escapeXml output key
  let output := output ++ "\">"
  let output := escapeXml output text
  output ++ "</fragment>"

namespace CompiledInstructions

def renderXml (c : CompiledInstructions) : String :=
  let output := "<instructions>"
  let output := renderInstruction output "core" c.core.text
  let output := match c.agent with
    | some agent => renderInstruction output "agent" agent
    | none => output
  let output := match c.run with
    | some run => renderInstruction output "run" run
    | none => output
  let output := c.features.foldl
    (fun output feature => renderInstruction output feature.key feature.text) output
  output ++ "</instructions>"

/-- The keys and texts of the fragments, in their order. -/
def fragments (c : CompiledInstructions) : List (String × String) :=
  ("core", c.core.text) :: (c.agent.toList.map (Prod.mk "agent") ++
    c.run.toList.map (Prod.mk "run") ++ c.features.map fun feature => (feature.key, feature.text))

end CompiledInstructions

namespace InstructionXml

open Delimited

def entities : Escape Char where
  mark := '&'
  names :=
    [('&', ['a', 'm', 'p', ';']), ('<', ['l', 't', ';']), ('>', ['g', 't', ';']),
      ('"', ['q', 'u', 'o', 't', ';']), ('\'', ['a', 'p', 'o', 's', ';'])]
  marked := by decide
  separate := by decide

def keyFormat : Format Char (List Char) :=
  entities.format.many ['"', '>'] (entities.closes ['>'] (by decide) (by decide))

def textFormat : Format Char (List Char) :=
  entities.format.many "</fragment>".toList (entities.closes _ (by decide) (by decide))

def fragmentFormat : Format Char (List Char × List Char) :=
  (keyFormat.pair textFormat).behind "<fragment key=\"".toList

theorem fragmentFormat_closes : fragmentFormat.Closes "</instructions>".toList := by
  intro fragment rest
  rfl

def instructionsFormat : Format Char (List (List Char × List Char)) :=
  (fragmentFormat.many "</instructions>".toList fragmentFormat_closes).behind
    "<instructions>".toList

/-- The fragments of a text. -/
def parse (text : String) : Option (List (String × String)) :=
  match instructionsFormat.read text.toList with
  | some (fragments, []) =>
    some (fragments.map fun fragment => (String.ofList fragment.1, String.ofList fragment.2))
  | _ => none

theorem toList_pushEscaped (output : String) (character : Char) :
    (pushEscaped output character).toList = output.toList ++ entities.write character := by
  unfold pushEscaped
  split
  · rw [String.toList_append]
    rfl
  · rw [String.toList_append]
    rfl
  · rw [String.toList_append]
    rfl
  · rw [String.toList_append]
    rfl
  · rw [String.toList_append]
    rfl
  · next hamp hlt hgt hquot hapos =>
    have hnone : entities.names.lookup character = none := by
      simp only [List.lookup_eq_none_iff, entities, List.forall_mem_cons, bne_iff_ne]
      exact ⟨hamp, hlt, hgt, hquot, hapos, List.forall_mem_nil _⟩
    simp only [Escape.write, hnone, String.toList_push]

theorem toList_escapeXml (output value : String) :
    (escapeXml output value).toList = output.toList ++ value.toList.flatMap entities.write := by
  rw [escapeXml]
  induction value.toList generalizing output with
  | nil => simp
  | cons character rest ih =>
    rw [List.foldl_cons, ih, toList_pushEscaped, List.flatMap_cons, List.append_assoc]

/-- The characters of a fragment. -/
def charsOf (fragment : String × String) : List Char × List Char :=
  (fragment.1.toList, fragment.2.toList)

theorem toList_renderInstruction (output key text : String) :
    (renderInstruction output key text).toList =
      output.toList ++ fragmentFormat.write (charsOf (key, text)) := by
  have hkey : "\">".toList = ['"', '>'] := by decide
  have hwrite : fragmentFormat.write (charsOf (key, text)) = "<fragment key=\"".toList ++
      (key.toList.flatMap entities.write ++ ['"', '>'] ++
        (text.toList.flatMap entities.write ++ "</fragment>".toList)) := rfl
  simp only [renderInstruction, String.toList_append, toList_escapeXml, hkey, hwrite,
    List.append_assoc]

theorem toList_features (output : String) (features : List InstructionFragment) :
    (features.foldl (fun output feature => renderInstruction output feature.key feature.text)
      output).toList = output.toList ++
        (features.map fun feature => charsOf (feature.key, feature.text)).flatMap
          fragmentFormat.write := by
  induction features generalizing output with
  | nil => simp
  | cons feature features ih =>
    rw [List.foldl_cons, ih, toList_renderInstruction, List.map_cons, List.flatMap_cons,
      List.append_assoc]

theorem toList_renderXml (c : CompiledInstructions) :
    c.renderXml.toList = instructionsFormat.write (c.fragments.map charsOf) := by
  have hwrite : instructionsFormat.write (c.fragments.map charsOf) = "<instructions>".toList ++
      ((c.fragments.map charsOf).flatMap fragmentFormat.write ++ "</instructions>".toList) := rfl
  rw [hwrite]
  obtain ⟨core, agent, run, features⟩ := c
  cases agent <;> cases run <;>
    simp [CompiledInstructions.renderXml, CompiledInstructions.fragments, toList_features,
      toList_renderInstruction, Function.comp_def]

end InstructionXml

/-- The fragments of rendered instructions are found again, whatever is in their keys and texts, so
that other fragments are rendered differently. -/
theorem render_xml_uniquely_decodable :
    (∀ c : CompiledInstructions, InstructionXml.parse c.renderXml = some c.fragments) ∧
      ∀ c d : CompiledInstructions, c.renderXml = d.renderXml → c.fragments = d.fragments := by
  have hparse (c : CompiledInstructions) :
      InstructionXml.parse c.renderXml = some c.fragments := by
    have hread := InstructionXml.instructionsFormat.read_write
      (c.fragments.map InstructionXml.charsOf) []
    rw [List.append_nil, ← InstructionXml.toList_renderXml] at hread
    simp [InstructionXml.parse, hread, InstructionXml.charsOf, Function.comp_def]
  refine ⟨hparse, fun c d h => ?_⟩
  have hsame := hparse c
  rw [h, hparse d, Option.some.injEq] at hsame
  exact hsame.symm

end Agentive
