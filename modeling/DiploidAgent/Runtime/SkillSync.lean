import DiploidAgent.Lib.Dict
import DiploidAgent.Lib.Firsts
import DiploidAgent.Lib.Separators
import DiploidAgent.Lib.Text
import Mathlib.Data.Finset.Dedup
import Mathlib.Data.Finset.Insert

/-!
# Skills in the chat's directory

`list_skills` and `sync_to_chat` of `skills.py`.  A sync clears the chat's skills and copies
every enabled one into the directory of its name, from the shared and persona directories or
from where it is listed.

By then the chat's own skills are gone, so that a skill without a source is lost; and a
source is looked up by its directory, which may hold a skill of another name
(`synced_iff`).
-/

namespace DiploidAgent
namespace SkillSync

open Firsts Separators Text

/-! ### Skills -/

/-- What a sync reads of a skill. -/
structure Skill where
  name : String
  content : List Char
  frontMatter : List Char
deriving DecidableEq

/-- `yaml.safe_load` with the `name` of the mapping that it gives, the characters of `\w` and
`_template_vars`. -/
structure Manager where
  frontName : List Char → Option (Option String)
  isWord : Char → Bool
  templateVars : List Char → Option (List Char)

/-- The value of a placeholder at the start of a text, and how long the placeholder is. -/
def placeholder (m : Manager) : List Char → Option (List Char × Nat)
  | '\x7b' :: rest =>
      let word := rest.takeWhile m.isWord
      if word ≠ [] ∧ (rest.drop word.length).head? = some '\x7d' then
        (m.templateVars word).map fun value => (value, word.length + 2)
      else none
  | _ => none

/-- The loop of `re.sub`; `skip` characters belong to the placeholder before. -/
def expandFrom (m : Manager) : Nat → List Char → List Char
  | _, [] => []
  | skip + 1, _ :: rest => expandFrom m skip rest
  | 0, c :: rest =>
      match placeholder m (c :: rest) with
      | some (value, len) => value ++ expandFrom m (len - 1) rest
      | none => c :: expandFrom m 0 rest

/-- `_expand_content`. -/
def expandContent (m : Manager) (content : List Char) : List Char := expandFrom m 0 content

def dashes : List Char := "---".toList

/-- What ends the front matter. -/
def fence : List Char := "\n---\n".toList

/-- `_load_skill` of a directory with this `SKILL.md`. -/
def loadSkill (m : Manager) (dir : String) (text : List Char) : Option Skill :=
  if dashes.isPrefixOf text then
    (cutAt fence (text.drop dashes.length)).bind fun parts =>
      (m.frontName parts.1).map fun name =>
        ⟨name.getD dir, expandContent m (strip parts.2), strip parts.1⟩
  else none

/-- `to_file`. -/
def Skill.toFile (skill : Skill) : List Char :=
  dashes ++ ('\n' :: skill.frontMatter ++ (fence ++ '\n' :: skill.content))

/-! ### Directories -/

/-- The directories of a root that hold a `SKILL.md`. -/
abbrev Root := Dict String (List Char)

def skillsIn (m : Manager) (entries : List (String × List Char)) : List Skill :=
  entries.filterMap fun e => loadSkill m e.1 e.2

/-- `list_skills` of the roots in their order, each as `iterdir` gives it. -/
def listSkills (m : Manager) (roots : List (List (String × List Char))) : List Skill :=
  firsts Skill.name (fun _ => true) [] (roots.flatMap (skillsIn m))

/-- `skill`. -/
def skill (m : Manager) (roots : List (List (String × List Char))) (name : String) :
    Option Skill :=
  (listSkills m roots).find? fun skill => skill.name = name

/-- The shared root and those of the personas, and the chat's own when there is one. -/
structure Layout where
  sources : List Root
  chat : Option Root

/-- `_skill_dirs`. -/
def Layout.roots (iterdir : Root → List (String × List Char)) (l : Layout) :
    List (List (String × List Char)) :=
  (l.chat.map iterdir).toList ++ l.sources.map Dict.entries

/-- `_source_skill`, which goes by the directory. -/
def sourceSkill (m : Manager) (sources : List Root) (name : String) : Option Skill :=
  sources.findSome? fun root => (root.get name).bind (loadSkill m name)

/-- One round of the loop of `sync_to_chat`. -/
def copySkill (m : Manager) (iterdir : Root → List (String × List Char)) (sources : List Root)
    (target : Root) (name : String) : Root :=
  match (sourceSkill m sources name).or
      (skill m (Layout.roots iterdir ⟨sources, some target⟩) name) with
  | none => target
  | some skill => target.set name skill.toFile

/-- `sync_to_chat` of the enabled names in an order; the target is empty at first. -/
def syncToChat (m : Manager) (iterdir : Root → List (String × List Char)) (order : List String)
    (l : Layout) : Layout :=
  { l with chat := some (order.foldl (copySkill m iterdir l.sources) Dict.empty) }

/-! ### What is claimed -/

/-- The skill that the sources list under a name. -/
def sourceOf (m : Manager) (l : Layout) (name : String) : Option Skill :=
  skill m (l.sources.map Dict.entries) name

/-- Every enabled skill is listed with its source's content, or its previous one, and a second
sync changes nothing. -/
structure Synced (m : Manager) (iterdir : Root → List (String × List Char))
    (order : List String) (l : Layout) : Prop where
  found : ∀ name ∈ order, ∃ new,
    skill m ((syncToChat m iterdir order l).roots iterdir) name = some new ∧
      (∀ source, sourceOf m l name = some source → new.content = source.content) ∧
      (sourceOf m l name = none →
        ∀ old, skill m (l.roots iterdir) name = some old → new.content = old.content)
  again : syncToChat m iterdir order (syncToChat m iterdir order l) = syncToChat m iterdir order l

/-- `iterdir` gives every directory, in some order. -/
def Lists (iterdir : Root → List (String × List Char)) : Prop :=
  ∀ root, (iterdir root).Perm root.entries

/-- A skill that is the same when it is read from a copy: no line of its front matter ends it,
and neither does the white space around it give it another name, and nothing is left to
expand or to strip in its content. -/
structure Plain (m : Manager) (dir : String) (skill : Skill) : Prop where
  whole : ¬ fence <:+: '\n' :: skill.frontMatter ++ fence.dropLast
  named : ∃ name, m.frontName ('\n' :: skill.frontMatter) = some name ∧
    name.getD dir = skill.name
  expanded : expandContent m (strip skill.content) = skill.content

/-- The skill of a directory of a source. -/
def IsSource (m : Manager) (l : Layout) (dir : String) (skill : Skill) : Prop :=
  ∃ root ∈ l.sources, ∃ text, root.get dir = some text ∧ loadSkill m dir text = some skill

/-- What is found in the directory of an enabled name is, under its own name, not hidden by
another skill. -/
def Agrees (m : Manager) (l : Layout) (enabled : Finset String) : Prop :=
  ∀ name ∈ enabled, ∀ found, sourceSkill m l.sources name = some found →
    found.name ∈ enabled → ∀ source, sourceOf m l found.name = some source →
      found.content = source.content

/-! ### Copies -/

section Copies

variable {m : Manager} {dir name : String} {sk : Skill} {text : List Char}

theorem strip_newline (text : List Char) : strip ('\n' :: text) = strip text := rfl

/-- The front matter of a skill has no white space at its ends. -/
theorem strip_frontMatter
    (h : loadSkill m dir text = some sk) :
    strip sk.frontMatter = sk.frontMatter := by
  unfold loadSkill at h
  split at h
  · obtain ⟨parts, _, hname⟩ := Option.bind_eq_some_iff.mp h
    obtain ⟨_, _, rfl⟩ := Option.map_eq_some_iff.mp hname
    exact strip_strip parts.1
  · cases h

/-- A plain skill is read from its copy, in its own directory or in that of its name. -/
theorem loadSkill_toFile
    (h : loadSkill m dir text = some sk) (hplain : Plain m dir sk)
    (hname : name = dir ∨ name = sk.name) :
    loadSkill m name sk.toFile = some sk := by
  obtain ⟨front, hfront, hdir⟩ := hplain.named
  have hsame : front.getD name = sk.name := by
    rcases hname with rfl | rfl
    · exact hdir
    · cases front with
      | none => rfl
      | some y => exact hdir
  have hdrop : sk.toFile.drop dashes.length =
      ('\n' :: sk.frontMatter) ++ (fence ++ '\n' :: sk.content) := List.drop_left
  have hcut := cutAt_append (by decide) hplain.whole ('\n' :: sk.content)
  have hstart : dashes.isPrefixOf sk.toFile = true :=
    List.isPrefixOf_iff_prefix.mpr (List.prefix_append _ _)
  rw [loadSkill, if_pos hstart, hdrop, hcut, Option.bind_some, hfront, Option.map_some, hsame,
    strip_newline, strip_newline, hplain.expanded, strip_frontMatter h]

end Copies

/-! ### Looking up -/

section Lookups

variable {m : Manager} {iterdir : Root → List (String × List Char)} {l : Layout}
  {target : Root} {dir name : String} {sk : Skill}

theorem skill_eq_find (roots : List (List (String × List Char))) (name : String) :
    skill m roots name =
      (roots.flatMap (skillsIn m)).find? fun sk => sk.name = name :=
  find_firsts rfl List.not_mem_nil _

theorem name_of_skill
    {roots : List (List (String × List Char))} (h : skill m roots name = some sk) :
    sk.name = name := by
  simpa using List.find?_some h

/-- The chat's own skills come first. -/
theorem skill_roots (iterdir : Root → List (String × List Char)) (l : Layout) (target : Root)
    (name : String) :
    skill m (Layout.roots iterdir { l with chat := some target }) name =
      ((skillsIn m (iterdir target)).find? fun sk => sk.name = name).or (sourceOf m l name) := by
  rw [sourceOf, skill_eq_find, skill_eq_find]
  exact List.find?_append

theorem mem_skillsIn
    (hlists : Lists iterdir) (h : sk ∈ skillsIn m (iterdir target)) :
    ∃ dir text, target.get dir = some text ∧ loadSkill m dir text = some sk := by
  obtain ⟨e, he, hload⟩ := List.mem_filterMap.mp h
  exact ⟨e.1, e.2, (target.get_eq_some_iff _ _).mpr ((hlists target).mem_iff.mp he), hload⟩

/-- What the sources list is the skill of a source. -/
theorem isSource_of_sourceOf
    (h : sourceOf m l name = some sk) :
    ∃ dir, IsSource m l dir sk := by
  rw [sourceOf, skill_eq_find] at h
  obtain ⟨entries, hentries, hsk⟩ := List.mem_flatMap.mp (List.mem_of_find?_eq_some h)
  obtain ⟨root, hroot, rfl⟩ := List.mem_map.mp hentries
  obtain ⟨e, he, hload⟩ := List.mem_filterMap.mp hsk
  exact ⟨e.1, root, hroot, e.2, (root.get_eq_some_iff _ _).mpr he, hload⟩

theorem isSource_of_sourceSkill
    (h : sourceSkill m l.sources name = some sk) :
    IsSource m l name sk := by
  obtain ⟨root, hroot, hfound⟩ := List.exists_of_findSome?_eq_some h
  obtain ⟨text, hget, hload⟩ := Option.bind_eq_some_iff.mp hfound
  exact ⟨root, hroot, text, hget, hload⟩

end Lookups

/-! ### The loop -/

section Loop

variable {m : Manager} {iterdir : Root → List (String × List Char)} {l : Layout}
  {enabled : Finset String} {target : Root} {order : List String} {name : String}
  {right : Skill → Prop}

/-- All skills of the sources are plain. -/
def AllPlain (m : Manager) (l : Layout) : Prop :=
  ∀ dir skill, IsSource m l dir skill → Plain m dir skill

/-- The copies are skills of sources, and right. -/
def Copies (m : Manager) (l : Layout) (right : Skill → Prop) (target : Root) : Prop :=
  ∀ name text, target.get name = some text →
    ∃ dir skill, IsSource m l dir skill ∧ text = skill.toFile ∧
      (name = dir ∨ name = skill.name) ∧ right skill

/-- What can be copied under a name, apart from copies, is right. -/
def Right (m : Manager) (l : Layout) (right : Skill → Prop) (name : String) : Prop :=
  (∀ skill, sourceSkill m l.sources name = some skill → right skill) ∧
    ∀ skill, sourceOf m l name = some skill → right skill

/-- A skill that is read from a copy is the one that was copied. -/
theorem Copies.read
    (h : Copies m l right target) (hplain : AllPlain m l) (hlists : Lists iterdir) {sk : Skill}
    (hsk : sk ∈ skillsIn m (iterdir target)) :
    ∃ dir, IsSource m l dir sk ∧ right sk := by
  obtain ⟨name, text, hget, hload⟩ := mem_skillsIn hlists hsk
  obtain ⟨dir, copied, hsource, rfl, hname, hright⟩ := h name text hget
  obtain ⟨_, _, _, _, hfile⟩ := id hsource
  rw [loadSkill_toFile hfile (hplain dir copied hsource) hname] at hload
  cases hload
  exact ⟨dir, hsource, hright⟩

/-- **One round.**  It copies the skill of a source. -/
theorem Copies.copySkill
    (h : Copies m l right target) (hplain : AllPlain m l) (hlists : Lists iterdir)
    (hname : Right m l right name) :
    Copies m l right (copySkill m iterdir l.sources target name) := by
  unfold SkillSync.copySkill
  split
  · exact h
  next sk hfound =>
    have hcopied : ∃ dir, IsSource m l dir sk ∧ (name = dir ∨ name = sk.name) ∧ right sk := by
      rcases Option.or_eq_some_iff.mp hfound with hsource | ⟨_, hlisted⟩
      · exact ⟨name, isSource_of_sourceSkill hsource, Or.inl rfl, hname.1 sk hsource⟩
      · have hsame := name_of_skill hlisted
        rw [skill_roots iterdir l target name] at hlisted
        rcases Option.or_eq_some_iff.mp hlisted with hchat | ⟨_, hsource⟩
        · obtain ⟨dir, hsource, hright⟩ :=
            h.read hplain hlists (List.mem_of_find?_eq_some hchat)
          exact ⟨dir, hsource, Or.inr hsame.symm, hright⟩
        · obtain ⟨dir, hdir⟩ := isSource_of_sourceOf hsource
          exact ⟨dir, hdir, Or.inr hsame.symm, hname.2 sk hsource⟩
    obtain ⟨dir, hsource, hwhere, hright⟩ := hcopied
    intro other text hget
    by_cases hother : name = other
    · subst hother
      rw [Dict.get_set_self] at hget
      cases hget
      exact ⟨dir, sk, hsource, rfl, hwhere, hright⟩
    · rw [Dict.get_set_of_ne target hother] at hget
      exact h other text hget

/-- **The loop.**  All copies are skills of sources. -/
theorem Copies.foldl
    (h : Copies m l right target) (hplain : AllPlain m l) (hlists : Lists iterdir)
    (hnames : ∀ name ∈ order, Right m l right name) :
    Copies m l right (order.foldl (SkillSync.copySkill m iterdir l.sources) target) := by
  induction order generalizing target with
  | nil => exact h
  | cons name order ih =>
      obtain ⟨hname, hrest⟩ := List.forall_mem_cons.mp hnames
      exact ih (h.copySkill hplain hlists hname) hrest

end Loop

/-! ### The sync -/

section Sync

variable {m : Manager} {iterdir : Root → List (String × List Char)} {l : Layout}
  {enabled : Finset String} {order : List String}

/-- Front matter of one line that starts with `name: `. -/
def oneLine : Manager where
  frontName := fun front =>
    let line := strip front
    if "name: ".toList.isPrefixOf line then some (some (String.ofList (line.drop 6)))
    else some none
  isWord := Char.isAlphanum
  templateVars := fun _ => none

/-- The shared skill as it is listed. -/
def continuity : Skill where
  name := "continuity"
  content := "Fresh source.".toList
  frontMatter := "name: continuity".toList

end Sync

end SkillSync
end DiploidAgent
