/-! Administration components: their registrations and their options. -/
namespace ProjectIndex

structure ComponentProp where
  name : String
  propType : Option String := none
  required : Bool := false
  default : Option String := none
  line : Nat := 0
deriving DecidableEq, Inhabited, Repr

structure NamedPlace where
  name : String
  line : Nat
deriving DecidableEq, Inhabited, Repr

structure ComponentDefinition where
  filePath : String
  props : List ComponentProp := []
  emits : List String := []
  methods : List String := []
  computed : List String := []
  slots : List NamedPlace := []
  blocks : List NamedPlace := []
  templatePath : Option String := none
  hasTemplate : Bool := false
deriving DecidableEq, Inhabited, Repr

/-- One registration of a component. -/
structure Component where
  name : String
  parentName : Option String := none
  importPath : Option String := none
  filePath : String
  definitionPath : Option String := none
  line : Nat
  props : List ComponentProp := []
  emits : List String := []
  methods : List String := []
  computed : List String := []
  slots : List NamedPlace := []
  blocks : List NamedPlace := []
  templatePath : Option String := none
deriving DecidableEq, Inhabited, Repr

def Component.withDefinition (c : Component) (d : ComponentDefinition) : Component :=
  { c with
    props := d.props
    emits := d.emits
    methods := d.methods
    computed := d.computed
    slots := d.slots
    blocks := d.blocks
    templatePath := d.templatePath }

end ProjectIndex
