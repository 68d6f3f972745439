/-
# The packaged mapping table

The rules for a screen, the widgets on it and the arrangements that hold them.  A conversion may
bring a table of its own instead.
-/
import ScreenForge.Component.Rule

namespace ScreenForge
namespace Component
namespace Packaged

/-- A mapped property: its name, its attribute and its format. -/
abbrev Property := String × String × Format

def text : Property := ("Text", "android:text", .text)
def hint : Property := ("Hint", "android:hint", .text)
def fontSize : Property := ("FontSize", "android:textSize", .sp)
def textColor : Property := ("TextColor", "android:textColor", .color)
def background : Property := ("BackgroundColor", "android:background", .color)
def orientation : Property := ("Orientation", "android:orientation", .text)
def enabled : Property := ("Enabled", "android:enabled", .boolean)
def visible : Property := ("Visible", "android:visibility", .visibility)

/-- The rule of a widget that has a width and a height of its own.  Of the formats only those
other than plain text are given. -/
def sized (tag idStem viewClass width height : String) (properties : List Property)
    (defaults : List (String × Scalar) := []) : Rule where
  tag := tag
  idStem := idStem
  defaults := ("Width", .text width) :: ("Height", .text height) :: defaults
  attributeOf :=
    ("Width", "android:layout_width") :: ("Height", "android:layout_height")
      :: properties.map fun p => (p.1, p.2.1)
  formats :=
    ("Width", .dimension) :: ("Height", .dimension)
      :: (properties.filter fun p => p.2.2 ≠ .text).map fun p => (p.1, p.2.2)
  viewClass := some viewClass

/-- An event that a listener without parameters hears. -/
def heard (listener : String) : Event := { listener := some listener }

/-- An event of a widget with two states, which the listener's second parameter tells. -/
def toggled (state : String) : Event where
  listener := some "setOnCheckedChangeListener"
  lambdaArgs := ["_", state]
  params := [state]

/-- The rule of `Form`. -/
def form : Rule :=
  { sized "LinearLayout" "screen" "android.widget.LinearLayout" "-2" "-2"
      [orientation, background] [("Orientation", .text "vertical")] with
    events := [("Initialize", { inline := true })] }

/-- The rule of `Button`. -/
def button : Rule :=
  { sized "Button" "button" "android.widget.Button" "-1" "-1"
      [text, fontSize, textColor, ("BackgroundColor", "android:backgroundTint", .color), enabled,
        visible] with
    accessors := [("Text", "text"), ("Enabled", "isEnabled"), ("FontSize", "textSize")]
    events := [
        ("Click", heard "setOnClickListener"),
        ("LongClick", { heard "setOnLongClickListener" with result := some "true" })
      ] }

/-- The rule of `Label`. -/
def label : Rule :=
  { sized "TextView" "textView" "android.widget.TextView" "-1" "-1"
      [text, fontSize, textColor, background, visible] with
    accessors := [("Text", "text"), ("FontSize", "textSize")]
    events := [("Click", heard "setOnClickListener")] }

/-- The rule of `TextBox`. -/
def textBox : Rule :=
  { sized "EditText" "editText" "android.widget.EditText" "-1" "-1"
      [text, hint, fontSize, enabled, visible] with
    accessors := [("Text", "text"), ("Hint", "hint"), ("Enabled", "isEnabled")]
    methods := [("RequestFocus", "requestFocus")]
    events := [("Click", heard "setOnClickListener")] }

/-- The rule of `PasswordTextBox`. -/
def passwordTextBox : Rule :=
  { sized "EditText" "passwordText" "android.widget.EditText" "-1" "-1"
      [("InputType", "android:inputType", .text), text, hint]
      [("InputType", .text "textPassword")] with
    accessors := [("Text", "text"), ("Hint", "hint")]
    methods := [("RequestFocus", "requestFocus")] }

/-- The rule of `CheckBox`. -/
def checkBox : Rule :=
  { sized "CheckBox" "checkBox" "android.widget.CheckBox" "-1" "-1"
      [text, ("Checked", "android:checked", .boolean), enabled] with
    accessors := [("Text", "text"), ("Checked", "isChecked"), ("Enabled", "isEnabled")]
    events := [("Changed", toggled "isChecked")] }

/-- The rule of `Switch`. -/
def switch : Rule :=
  { sized "Switch" "switch" "android.widget.Switch" "-1" "-1"
      [text, ("On", "android:checked", .boolean)] with
    accessors := [("Text", "text"), ("On", "isChecked")]
    events := [("Changed", toggled "isOn")] }

/-- The rule of `Image`. -/
def image : Rule :=
  { sized "ImageView" "imageView" "android.widget.ImageView" "-1" "-1"
      [("Picture", "android:src", .drawable), visible] with
    events := [("Click", heard "setOnClickListener")] }

/-- The rule of `Slider`. -/
def slider : Rule :=
  { sized "SeekBar" "seekBar" "android.widget.SeekBar" "-2" "-1"
      [("MaxValue", "android:max", .integer), ("ThumbPosition", "android:progress", .integer)]
      [("MaxValue", .text "50")] with
    accessors := [("ThumbPosition", "progress"), ("MaxValue", "max")] }

/-- The rule of `Spinner`. -/
def spinner : Rule :=
  sized "Spinner" "spinner" "android.widget.Spinner" "-1" "-1"
    [("Prompt", "android:prompt", .text)]

/-- The rule of `ListView`. -/
def listView : Rule :=
  sized "ListView" "listView" "android.widget.ListView" "-2" "-1" [background]

/-- The rule of `WebViewer`. -/
def webViewer : Rule :=
  { sized "WebView" "webView" "android.webkit.WebView" "-2" "-2" [] with
    methods := [
        ("GoToUrl", "loadUrl"), ("GoBack", "goBack"), ("GoForward", "goForward"),
        ("Reload", "reload")
      ] }

/-- The rule of an arrangement along one axis. -/
def arrangement (idStem axis : String) : Rule :=
  sized "LinearLayout" idStem "android.widget.LinearLayout" "-1" "-1"
    [orientation, background, visible] [("Orientation", .text axis)]

/-- The rule of an arrangement that scrolls. -/
def scrolling (tag idStem viewClass : String) : Rule :=
  sized tag idStem viewClass "-1" "-1" [background]

end Packaged

/-- The packaged table. -/
def Table.packaged : Table := [
  ("Form", Packaged.form), ("Button", Packaged.button), ("Label", Packaged.label),
  ("TextBox", Packaged.textBox), ("PasswordTextBox", Packaged.passwordTextBox),
  ("CheckBox", Packaged.checkBox), ("Switch", Packaged.switch), ("Image", Packaged.image),
  ("Slider", Packaged.slider), ("Spinner", Packaged.spinner), ("ListView", Packaged.listView),
  ("WebViewer", Packaged.webViewer),
  ("HorizontalArrangement", Packaged.arrangement "horizontalLayout" "horizontal"),
  ("VerticalArrangement", Packaged.arrangement "verticalLayout" "vertical"),
  ("VerticalScrollArrangement",
    Packaged.scrolling "ScrollView" "scrollView" "android.widget.ScrollView"),
  ("HorizontalScrollArrangement",
    Packaged.scrolling "HorizontalScrollView" "horizontalScrollView"
      "android.widget.HorizontalScrollView")
]

end Component
end ScreenForge
