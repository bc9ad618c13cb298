import Mathlib.Data.List.TakeWhile
import ScriptKit.CommandLine.Path

namespace ScriptKit.CommandLine.Path

variable {path part : String} {folder name : List Char}

/-- Whether a part of a path names something, and is no step to where a walk already is or came
from. -/
structure IsName (part : String) : Prop where
  nonempty : part ≠ ""
  notHere : part ≠ "."
  notUp : part ≠ ".."

/-- A path neither turns back nor starts with a step to where the walk already is. -/
structure IsPlain (path : String) : Prop where
  start : (split path).head? ≠ some "."
  onward : ".." ∉ split path

/-- A path from the root has an empty part before its slash. -/
theorem split_of_isAbsolute (h : isAbsolute path = true) :
    ∃ part rest, split path = "" :: part :: rest := by
  obtain ⟨behind, ht⟩ : ∃ behind, path.toList = '/' :: behind := by
    simpa [isAbsolute, List.head?_eq_some_iff] using h
  have hsplit : split path = "" :: (behind.splitOn '/').map String.ofList := by
    rw [split, ht, List.splitOn_cons_eq_if_modifyHead]
    rfl
  obtain ⟨part, rest, hb⟩ := List.exists_cons_of_ne_nil (List.splitOn_ne_nil '/' behind)
  exact ⟨String.ofList part, rest.map String.ofList, by rw [hsplit, hb, List.map_cons]⟩

/-- Any other path starts with a part that is not empty, or is empty itself. -/
theorem split_of_not_isAbsolute (h : isAbsolute path = false) :
    split path = [""] ∨ ∃ part rest, part ≠ "" ∧ split path = part :: rest := by
  cases ht : path.toList with
  | nil =>
    left
    rw [split, ht]
    rfl
  | cons c behind =>
    right
    have hc : (c == '/') = false := by simpa [isAbsolute, ht] using h
    obtain ⟨part, rest, hb⟩ := List.exists_cons_of_ne_nil (List.splitOn_ne_nil '/' behind)
    refine ⟨String.ofList (c :: part), rest.map String.ofList, ?_, ?_⟩
    · intro he
      have := congrArg String.toList he
      simp at this
    · rw [split, ht, List.splitOn_cons_eq_if_modifyHead, hc, hb]
      rfl

/-- The parts of a plain path are those that name something, and the root. -/
theorem IsPlain.parts_eq (h : IsPlain path) :
    parts path = (if isAbsolute path then [""] else []) ++
      (split path).filter fun part => part != "" && part != "." := by
  have hstart := h.start
  unfold parts
  cases ha : isAbsolute path with
  | true =>
    obtain ⟨part, rest, hs⟩ := split_of_isAbsolute ha
    simp [hs]
  | false =>
    rcases split_of_not_isAbsolute ha with hs | ⟨part, rest, hne, hs⟩
    · simp [hs]
    · rw [hs, List.head?_cons, ne_eq, Option.some.injEq] at hstart
      simp [hs, hne, hstart]

/-- A path is cut in two before its last part. -/
structure EndsWith (path : String) (folder name : List Char) : Prop where
  text : path.toList = folder ++ name
  noSlash : '/' ∉ name
  folder : folder = [] ∨ ∃ before, folder = before ++ ['/']

theorem exists_endsWith (path : String) : ∃ folder name, EndsWith path folder name := by
  refine ⟨(path.toList.reverse.dropWhile (· != '/')).reverse,
    (path.toList.reverse.takeWhile (· != '/')).reverse, ?_, ?_, ?_⟩
  · rw [← List.reverse_append, List.takeWhile_append_dropWhile, List.reverse_reverse]
  · intro hm
    have hall := List.all_eq_true.mp List.all_takeWhile '/' (List.mem_reverse.mp hm)
    simp at hall
  · cases hd : path.toList.reverse.dropWhile (· != '/') with
    | nil => exact .inl rfl
    | cons c rest =>
      have hc := List.head?_dropWhile_not (· != '/') path.toList.reverse
      rw [hd] at hc
      obtain rfl : c = '/' := by simpa using hc
      exact .inr ⟨rest.reverse, List.reverse_cons⟩

theorem EndsWith.getLast?_split (h : EndsWith path folder name) :
    (split path).getLast? = some (String.ofList name) := by
  have hname : name.splitOn '/' = [name] := List.splitOn_eq_singleton h.noSlash
  rw [split, h.text, List.getLast?_map]
  rcases h.folder with rfl | ⟨before, rfl⟩
  · simp [hname]
  · rw [List.append_assoc, List.singleton_append, List.splitOn_append_cons_self, hname]
    simp

/-- The stem of a name is made up of its characters. -/
theorem mem_of_mem_stem {c : Char} (h : c ∈ stem name) : c ∈ name := by
  rw [stem] at h
  split at h
  · exact h
  · next dot before hd =>
    split at h
    · exact h
    · have hmem : c ∈ name.reverse.dropWhile (· != '.') := by
        rw [hd]
        exact List.mem_cons_of_mem _ (List.mem_reverse.mp h)
      exact List.mem_reverse.mp ((List.dropWhile_sublist _).mem hmem)

/-- A path that ends with a name has no slashes and dots behind it to be cut off. -/
theorem cutEnd_of_isName (hn : IsName (String.ofList name)) (hs : '/' ∉ name) (rest : List Char) :
    upToName?.cutEnd (name.reverse ++ rest) = name.reverse ++ rest := by
  have hname : name = name.reverse.reverse := (List.reverse_reverse name).symm
  cases hr : name.reverse with
  | nil =>
    rw [hr] at hname
    exact absurd (congrArg String.ofList hname) hn.nonempty
  | cons c others =>
    have hc : c ≠ '/' := by
      rintro rfl
      exact hs (hname ▸ by simp [hr])
    rw [List.cons_append, upToName?.cutEnd.eq_def]
    split
    · next he => exact absurd (List.cons.inj he).1 hc
    · next he =>
      obtain ⟨rfl, hothers⟩ := List.cons.inj he
      cases others with
      | nil =>
        rw [hr] at hname
        exact absurd (congrArg String.ofList hname) hn.notHere
      | cons d others =>
        obtain ⟨rfl, -⟩ := List.cons.inj hothers
        exact absurd (hname ▸ by simp [hr]) hs
    · rfl

theorem EndsWith.upToName? (h : EndsWith path folder name) (hn : IsName (String.ofList name)) :
    upToName? path = some (folder, name) := by
  have hreverse : path.toList.reverse = name.reverse ++ folder.reverse := by
    rw [h.text, List.reverse_append]
  have hclear : ∀ c ∈ name.reverse, (c != '/') = true := by
    intro c hc
    rw [bne_iff_ne]
    rintro rfl
    exact h.noSlash (List.mem_reverse.mp hc)
  have hfolder : folder.reverse.takeWhile (· != '/') = [] ∧
      folder.reverse.dropWhile (· != '/') = folder.reverse := by
    rcases h.folder with rfl | ⟨before, rfl⟩
    · exact ⟨rfl, rfl⟩
    · simp
  have hnone : ¬(name = [] ∨ name = ['.'] ∨ name = ['.', '.']) := by
    rintro (rfl | rfl | rfl)
    · exact hn.nonempty rfl
    · exact hn.notHere rfl
    · exact hn.notUp rfl
  simp only [Path.upToName?, hreverse, cutEnd_of_isName hn h.noSlash,
    List.takeWhile_append_of_pos hclear, List.dropWhile_append_of_pos hclear, hfolder.1, hfolder.2,
    List.append_nil, List.reverse_reverse, if_neg hnone]

/-- With another extension, a path differs in its last part only. -/
theorem EndsWith.withExtension (h : EndsWith path folder name) (hn : IsName (String.ofList name))
    {extension : String} (he : '/' ∉ extension.toList) :
    EndsWith (withExtension extension path) folder (stem name ++ '.' :: extension.toList) where
  text := by simp [Path.withExtension, h.upToName? hn]
  noSlash := by
    have hstem : '/' ∉ stem name := mt mem_of_mem_stem h.noSlash
    simp [hstem, he]
  folder := h.folder

end ScriptKit.CommandLine.Path
