import DeviceModel.Error
import DeviceModel.Text.Split

/-!
Paths as text. A path is read as a list of components; what it means is the `walk` they
describe on a stack of names. `normalize` writes the one shortest path with that meaning.

The names on a stack stand in the order in which a path would list them.
-/

namespace DeviceModel.Path

inductive Component where
  | root
  | current
  | parent
  | normal (name : String)
  deriving DecidableEq

/-- The stretches of a path between its slashes, those that hold something. -/
def names (path : String) : List String :=
  (Text.parts (· == '/') path.toList).map String.ofList

def isAbsolute (path : String) : Bool := path.toList.head? == some '/'

def Component.ofName (name : String) : Component :=
  if name = "." then current else if name = ".." then parent else normal name

def components (path : String) : List Component :=
  (if isAbsolute path then [.root] else []) ++ (names path).map .ofName

/-! ### Meaning -/

/-- One step. The parent of the root is the root. -/
def Component.walk (stack : List String) : Component → List String
  | root => []
  | current => stack
  | parent => stack.dropLast
  | normal name => stack ++ [name]

/-- Where a path leads from the place that `stack` names. -/
def walk (path : String) (stack : List String) : List String :=
  (components path).foldl Component.walk stack

/-- One step from a place that is not known: going up where no name is left is kept. -/
def Component.climb (stack : List String) : Component → List String
  | root | current => stack
  | parent =>
    match stack.getLast? with
    | none => [".."]
    | some name => if name = ".." then stack ++ [".."] else stack.dropLast
  | normal name => stack ++ [name]

/-! ### Written forms -/

def joined (stack : List String) : List Char := Text.join '/' (stack.map String.toList)

/-- The absolute path of a stack of names. -/
def render (stack : List String) : String := String.ofList ('/' :: joined stack)

def renderRelative (stack : List String) : String :=
  if stack.isEmpty then "." else String.ofList (joined stack)

def normalize (path : String) : String :=
  if isAbsolute path then render (walk path [])
  else renderRelative ((components path).foldl Component.climb [])

/-- The last name of a path, whatever slashes follow it. -/
def nameOf (path : String) : Except Error String :=
  match (names path).getLast? with
  | some name => .ok name
  | none => .error .invalidArgument

/-- The path without the slashes at its end. -/
def trimEnd (path : String) : String :=
  String.ofList (path.toList.reverse.dropWhile (· == '/')).reverse

/-- One slash between a directory and a name. -/
def join (dir name : String) : String :=
  String.ofList ((trimEnd dir).toList ++ '/' :: name.toList.dropWhile (· == '/'))

/-- The place a link target names, read from the directory `dir` that holds the link. -/
def resolve (dir target : String) : String :=
  normalize (if isAbsolute target then target else join dir target)

/-- The directory and the name of a path, cut at its last slash. -/
def dirAndName (path : String) : String × String :=
  let name := String.ofList (path.toList.reverse.takeWhile (· != '/')).reverse
  match path.toList.reverse.dropWhile (· != '/') with
  | [] | [_] => ("/", name)
  | _ :: dir => (String.ofList dir.reverse, name)

@[simp] theorem Component.walk_root (stack : List String) : Component.walk stack .root = [] := rfl
@[simp] theorem Component.walk_current (stack : List String) :
    Component.walk stack .current = stack := rfl
@[simp] theorem Component.walk_parent (stack : List String) :
    Component.walk stack .parent = stack.dropLast := rfl
@[simp] theorem Component.walk_normal (stack : List String) (name : String) :
    Component.walk stack (.normal name) = stack ++ [name] := rfl

theorem joined_cons_cons (a b : String) (rest : List String) :
    joined (a :: b :: rest) = a.toList ++ '/' :: joined (b :: rest) := rfl

@[simp] theorem render_nil : render [] = "/" := rfl

/-! ### Names -/

/-- A name as it may stand between two slashes. -/
def IsName (n : String) : Prop := n ≠ "" ∧ '/' ∉ n.toList

theorem isName_of_mem_names {n p : String} (h : n ∈ names p) : IsName n := by
  obtain ⟨cs, hcs, rfl⟩ := List.mem_map.1 h
  have := Text.mem_parts hcs
  refine ⟨fun he => this.1 ?_, fun hm => ?_⟩
  · simpa using congrArg String.toList he
  · simpa using this.2 '/' (by simpa using hm)

theorem names_append_slash (a b : String) : names (a ++ "/" ++ b) = names a ++ names b := by
  simp only [names, String.toList_append, List.append_assoc]
  rw [show "/".toList ++ b.toList = '/' :: b.toList from rfl, Text.parts_append (by simp),
    List.map_append]

theorem names_render {st : List String} (h : ∀ n ∈ st, IsName n) : names (render st) = st := by
  have hj : Text.parts (· == '/') (joined st) = st.map String.toList := by
    refine Text.parts_join fun p hp => ?_
    obtain ⟨n, hn, rfl⟩ := List.mem_map.1 hp
    refine ⟨fun he => (h n hn).1 (by simpa using congrArg String.ofList he), fun c hc => ?_⟩
    have := (h n hn).2
    simp only [beq_eq_false_iff_ne]
    rintro rfl
    exact this hc
  simp only [names, render, String.toList_ofList]
  rw [Text.parts_cons_sep (by simp), hj]
  simp

@[simp] theorem isAbsolute_render (st : List String) : isAbsolute (render st) = true := by
  simp [isAbsolute, render]

end DeviceModel.Path
