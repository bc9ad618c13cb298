import ScriptKit.CommandLine.FileStore
import ScriptKit.Proofs.CommandLine.Path

namespace ScriptKit.CommandLine

open CommandLine.Path (IsName EndsWith)

/-- The name of a file that is there, or could be put there. -/
def Target.name? : Target → Option (List String)
  | .file name | .free name => some name
  | _ => none

namespace FileStore

/-- The name of the file that a path leads to, whether it is there or not. -/
def target? (store : FileStore) (path : String) : Option (List String) :=
  if wantsFolder path then none else (store.locate path).name?

/-- A walk from a folder along the parts of a path leads to the name of a file. -/
inductive Leads (store : FileStore) : List String → List String → List String → Prop
  | stay {folder parts name : List String} {part : String} (here : part = "" ∨ part = ".")
      (walk : Leads store folder parts name) : Leads store folder (part :: parts) name
  | up {folder parts name : List String} (walk : Leads store folder.dropLast parts name) :
      Leads store folder (".." :: parts) name
  | down {folder parts name : List String} {part : String} (named : IsName part)
      (opens : store.isFolder (folder ++ [part]) = true)
      (walk : Leads store (folder ++ [part]) parts name) : Leads store folder (part :: parts) name
  | last {folder : List String} {part : String} (named : IsName part)
      (ends : store.isFolder (folder ++ [part]) = false) :
      Leads store folder [part] (folder ++ [part])

variable {store after : FileStore} {folder parts name other : List String} {part path : String}
  {content : String}

/-- A walk ends where it leads to, and finds there whether the file is there. -/
theorem Leads.follow_eq (h : Leads store folder parts name) :
    store.follow folder parts = if store.isFile name then .file name else .free name := by
  induction h with
  | stay here walk ih => rw [follow, if_pos here, ih]
  | up walk ih => simpa [follow] using ih
  | down named opens walk ih =>
    have here := not_or.mpr ⟨named.nonempty, named.notHere⟩
    simpa [follow, here, named.notUp, opens] using ih
  | last named ends =>
    have here := not_or.mpr ⟨named.nonempty, named.notHere⟩
    simp [follow, here, named.notUp, ends]

theorem leads_of_follow (h : (store.follow folder parts).name? = some name) :
    Leads store folder parts name := by
  induction parts generalizing folder with
  | nil => cases h
  | cons part rest ih =>
    rw [follow] at h
    split at h
    · next here => exact .stay here (ih h)
    · next here =>
      split at h
      · next hup =>
        subst hup
        exact .up (ih h)
      · next hup =>
        have named : IsName part := ⟨fun he => here (.inl he), fun he => here (.inr he), hup⟩
        dsimp only at h
        split at h
        · next opens => exact .down named opens (ih h)
        · next closed =>
          have ends : store.isFolder (folder ++ [part]) = false := by simpa using closed
          cases rest with
          | nil =>
            have hname : folder ++ [part] = name := by
              split at h <;> exact Option.some.inj h
            exact hname ▸ .last named ends
          | cons next rest => split at h <;> cases h

/-- The last part of the path is the last one of the name. -/
theorem Leads.getLast? (h : Leads store folder parts name) :
    ∃ part, IsName part ∧ parts.getLast? = some part ∧ name.getLast? = some part := by
  induction h with
  | stay here walk ih =>
    obtain ⟨part, named, hparts, hname⟩ := ih
    exact ⟨part, named, by simp [List.getLast?_cons, hparts], hname⟩
  | up walk ih =>
    obtain ⟨part, named, hparts, hname⟩ := ih
    exact ⟨part, named, by simp [List.getLast?_cons, hparts], hname⟩
  | down named opens walk ih =>
    obtain ⟨part, named, hparts, hname⟩ := ih
    exact ⟨part, named, by simp [List.getLast?_cons, hparts], hname⟩
  | last named ends => exact ⟨_, named, rfl, List.getLast?_concat⟩

/-- A walk that never turns back passes the parts that name something. -/
theorem Leads.eq_append_filter (h : Leads store folder parts name) (hup : ".." ∉ parts) :
    name = folder ++ parts.filter fun part => part != "" && part != "." := by
  induction h with
  | stay here walk ih =>
    rw [ih (List.not_mem_of_not_mem_cons hup)]
    rcases here with rfl | rfl <;> simp
  | up walk ih => exact absurd List.mem_cons_self hup
  | down named opens walk ih =>
    rw [ih (List.not_mem_of_not_mem_cons hup)]
    simp [named.nonempty, named.notHere]
  | last named ends => simp [named.nonempty, named.notHere]

/-- A file of this name is there or could be put there: the folders on the way are there, and no
folder has the name. -/
structure HasPlace (store : FileStore) (name : List String) : Prop where
  ends : store.isFolder name = false
  folders : ∀ path, path <+: name → path ≠ name → store.isFolder path = true

theorem Leads.hasPlace (h : Leads store folder parts name)
    (hf : ∀ path, path <+: folder → store.isFolder path = true) : store.HasPlace name := by
  induction h with
  | stay here walk ih => exact ih hf
  | up walk ih =>
    apply ih
    intro path hp
    exact hf path (hp.trans (List.dropLast_prefix _))
  | down named opens walk ih =>
    apply ih
    intro path hp
    rcases List.prefix_concat_iff.mp hp with rfl | hp
    · exact opens
    · exact hf path hp
  | last named ends =>
    refine ⟨ends, fun path hp hother => ?_⟩
    rcases List.prefix_concat_iff.mp hp with rfl | hp
    · exact absurd rfl hother
    · exact hf path hp

theorem isFolder_iff {path : List String} : store.isFolder path = true ↔
    path <+: store.folder ∨ ∃ file ∈ store.files, path <+: file.1 ∧ path ≠ file.1 := by
  simp [isFolder]

/-- A walk starts in a folder that is there. -/
theorem isFolder_start {parent : List String} (h : parent <+: store.start path) :
    store.isFolder parent = true := by
  apply isFolder_iff.mpr
  left
  unfold start at h
  split at h
  · rw [List.prefix_nil.mp h]
    exact List.nil_prefix
  · exact h

/-- Writing a file where there is a place for it makes no folder. -/
theorem isFolder_put (h : store.HasPlace name) (path : List String) :
    (store.put name content).isFolder path = store.isFolder path := by
  rw [Bool.eq_iff_iff, isFolder_iff, isFolder_iff]
  constructor
  · intro hf
    rcases hf with hp | ⟨file, hm, hp, hother⟩
    · exact .inl hp
    rcases List.mem_cons.mp hm with rfl | hm
    · exact isFolder_iff.mp (h.folders path hp hother)
    · exact .inr ⟨file, (List.mem_filter.mp hm).1, hp, hother⟩
  · intro hf
    rcases hf with hp | ⟨file, hm, hp, hother⟩
    · exact .inl hp
    right
    by_cases hn : file.1 = name
    · exact ⟨(name, content), List.mem_cons_self, hn ▸ hp, hn ▸ hother⟩
    · exact ⟨file, List.mem_cons_of_mem _ (List.mem_filter.mpr ⟨hm, by simpa using hn⟩), hp, hother⟩

theorem Leads.put (h : Leads store folder parts other) (hp : store.HasPlace name) :
    Leads (store.put name content) folder parts other := by
  induction h with
  | stay here walk ih => exact .stay here ih
  | up walk ih => exact .up ih
  | down named opens walk ih => exact .down named ((isFolder_put hp _).trans opens) ih
  | last named ends => exact .last named ((isFolder_put hp _).trans ends)

/-- Slashes at the end of a path are all that is cut off. -/
theorem locate_of_getLast? (h : (Path.split path).getLast? = some part) (hne : part ≠ "") :
    store.locate path = store.follow (store.start path) (Path.split path) := by
  have hparts : ((Path.split path).reverse.dropWhile (· == "")).reverse = Path.split path := by
    rw [← List.head?_reverse] at h
    cases hr : (Path.split path).reverse with
    | nil => simp [hr] at h
    | cons last before =>
      simp only [hr, List.head?_cons, Option.some.injEq] at h
      rw [List.dropWhile_cons_of_neg (by simpa [h] using hne), ← hr, List.reverse_reverse]
  unfold locate
  rw [hparts]
  split
  · next he => simp [he] at h
  · rfl

/-- A path leads to a file by a walk, from the root or from the folder of the program. -/
theorem target?_eq_some : store.target? path = some name ↔
    Leads store (store.start path) (Path.split path) name := by
  obtain ⟨folder, last, he⟩ := Path.exists_endsWith path
  have hlast := he.getLast?_split
  cases last with
  | nil =>
    -- A path without a last part is empty or ends with a slash.
    have hnone : store.target? path = none := by
      rcases he.folder with rfl | ⟨before, rfl⟩
      · have hpath : path = "" := String.toList_inj.mp he.text
        subst hpath
        rfl
      · have hslash : wantsFolder path = true := by simp [wantsFolder, he.text]
        rw [target?, if_pos hslash]
    rw [hnone]
    constructor
    · intro h
      cases h
    · intro h
      obtain ⟨part, named, hpart, -⟩ := h.getLast?
      rw [hlast, Option.some.injEq] at hpart
      exact absurd hpart.symm named.nonempty
  | cons c rest =>
    have hslash : ¬wantsFolder path = true := by
      intro hw
      have hend : '/' ∈ c :: rest := by
        have hl : (c :: rest).getLast? = some '/' := by
          simpa [wantsFolder, he.text, List.getLast?_append] using hw
        exact List.mem_of_getLast? hl
      exact he.noSlash hend
    have hne : String.ofList (c :: rest) ≠ "" := by
      intro h
      have := congrArg String.toList h
      simp at this
    rw [target?, if_neg hslash, locate_of_getLast? hlast hne]
    constructor
    · exact leads_of_follow
    · intro h
      rw [h.follow_eq]
      split <;> rfl

theorem locate_eq (h : store.target? path = some name) :
    store.locate path = if store.isFile name then .file name else .free name := by
  have walk := target?_eq_some.mp h
  obtain ⟨part, named, hpart, -⟩ := walk.getLast?
  rw [locate_of_getLast? hpart named.nonempty, walk.follow_eq]

theorem wantsFolder_eq (h : store.target? path = some name) : wantsFolder path = false := by
  rw [target?] at h
  split at h
  · cases h
  · next hw => simpa using hw

/-- Where a name is found all the same, the path asks for a folder. -/
theorem wantsFolder_of_target?_eq_none (h : store.target? path = none)
    (hname : (store.locate path).name? = some name) : wantsFolder path = true := by
  rw [target?] at h
  split at h
  · next hw => exact hw
  · rw [hname] at h
    cases h

theorem isFile_eq (store : FileStore) (name : List String) :
    store.isFile name = (store.files.lookup name).isSome := by
  rw [isFile]
  induction store.files with
  | nil => rfl
  | cons file rest ih =>
    rw [List.any_cons, List.lookup_cons, ih, BEq.comm]
    cases name == file.1 <;> rfl

/-- What stands in a file is read under every path that leads to it. -/
theorem read_eq_ok : store.read path = .ok content ↔
    ∃ name, store.target? path = some name ∧ store.files.lookup name = some content := by
  cases ht : store.target? path with
  | none =>
    simp only [reduceCtorEq, false_and, exists_false, iff_false]
    intro hr
    cases hl : store.locate path with
    | file found =>
      have hname : (store.locate path).name? = some found := congrArg Target.name? hl
      have hw := wantsFolder_of_target?_eq_none ht hname
      simp [read, hl, hw] at hr
    | folder | free | nothing | behindFile => simp [read, hl] at hr
  | some name =>
    simp only [Option.some.injEq, exists_eq_left', read, locate_eq ht, wantsFolder_eq ht]
    cases hf : store.files.lookup name <;> simp [isFile_eq, hf]

theorem write_eq_ok : store.write path content = .ok after ↔
    ∃ name, store.target? path = some name ∧ after = store.put name content := by
  cases ht : store.target? path with
  | none =>
    simp only [reduceCtorEq, false_and, exists_false, iff_false]
    intro hr
    cases hl : store.locate path with
    | file found | free found =>
      have hname : (store.locate path).name? = some found := congrArg Target.name? hl
      have hw := wantsFolder_of_target?_eq_none ht hname
      simp [write, hl, hw] at hr
    | folder | nothing | behindFile => simp [write, hl] at hr
  | some name =>
    simp only [Option.some.injEq, exists_eq_left', write, locate_eq ht, wantsFolder_eq ht]
    cases store.isFile name <;> simp [eq_comm]

theorem lookup_put_self : (store.put name content).files.lookup name = some content :=
  List.lookup_cons_self

theorem lookup_put_of_ne (h : other ≠ name) :
    (store.put name content).files.lookup other = store.files.lookup other := by
  have hother : (other == name) = false := by simpa using h
  simp only [put, List.lookup_cons, hother]
  induction store.files with
  | nil => rfl
  | cons file rest ih =>
    by_cases hn : file.1 = name
    · have hf : (other == file.1) = false := hn ▸ hother
      rw [List.filter_cons_of_neg (by simpa using hn), ih, List.lookup_cons, hf]
    · rw [List.filter_cons_of_pos (by simpa using hn), List.lookup_cons, List.lookup_cons, ih]

/-- A path that leads to a file leads there still when another file is written. -/
theorem target?_put {out : String} (ho : store.target? out = some name)
    (h : store.target? path = some other) :
    (store.put name content).target? path = some other := by
  have hplace : store.HasPlace name := by
    apply (target?_eq_some.mp ho).hasPlace
    intro parent
    exact isFolder_start
  exact target?_eq_some.mpr ((target?_eq_some.mp h).put hplace)

/-- What is written is read again, and so is what stood in other files. -/
theorem read_of_write (h : store.write path content = .ok after) :
    after.read path = .ok content ∧
      ∀ input code, store.read input = .ok code →
        store.target? input ≠ store.target? path → after.read input = .ok code := by
  obtain ⟨name, hname, rfl⟩ := write_eq_ok.mp h
  constructor
  · exact read_eq_ok.mpr ⟨name, target?_put hname hname, lookup_put_self⟩
  · intro input code hread hne
    obtain ⟨source, hsource, hcode⟩ := read_eq_ok.mp hread
    have hother : source ≠ name := by
      rintro rfl
      exact hne (hsource.trans hname.symm)
    exact read_eq_ok.mpr ⟨source, target?_put hname hsource, (lookup_put_of_ne hother).trans hcode⟩

/-- Plain paths that start at one place and lead to one file have the same parts. -/
theorem parts_eq_of_target? {out : String} (hp : Path.IsPlain path) (ho : Path.IsPlain out)
    (hfrom : Path.isAbsolute path = Path.isAbsolute out) (h : store.target? path = some name)
    (hout : store.target? out = some name) : Path.parts path = Path.parts out := by
  have hname := (target?_eq_some.mp h).eq_append_filter hp.onward
  have hname' := (target?_eq_some.mp hout).eq_append_filter ho.onward
  have hstart : store.start path = store.start out := by rw [start, start, hfrom]
  rw [hname', hstart] at hname
  rw [hp.parts_eq, ho.parts_eq, hfrom, List.append_cancel_left hname]

/-- With another extension, a path leads to another file unless nothing was changed. -/
theorem eq_of_target?_withExtension {extension : String} (he : '/' ∉ extension.toList)
    (h : store.target? path = some name)
    (ho : store.target? (Path.withExtension extension path) = some name) :
    Path.withExtension extension path = path := by
  obtain ⟨folder, last, hends⟩ := Path.exists_endsWith path
  obtain ⟨part, named, hpart, hname⟩ := (target?_eq_some.mp h).getLast?
  obtain ⟨part', -, hpart', hname'⟩ := (target?_eq_some.mp ho).getLast?
  rw [hends.getLast?_split, Option.some.injEq] at hpart
  have hout := hends.withExtension (hpart ▸ named) he
  -- Both last parts are that of the name.
  rw [hout.getLast?_split, Option.some.injEq] at hpart'
  have hlast : String.ofList (Path.stem last ++ '.' :: extension.toList) = String.ofList last := by
    rw [hpart', hpart]
    exact Option.some.inj (hname'.symm.trans hname)
  apply String.toList_inj.mp
  rw [hout.text, hends.text, String.ofList_injective hlast]

end FileStore
end ScriptKit.CommandLine
