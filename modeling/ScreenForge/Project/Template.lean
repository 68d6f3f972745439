/-
# File templates

The files around a converted screen are the same for every project up to a few values.  A template
is a list of fixed texts and slots; `render` fills the slots from named values, or names the first
slot that has none.  A slot in a file of texts escapes what that file gives a meaning
(`resourceText`).
-/
import ScreenForge.Text.Split

namespace ScreenForge
namespace Project

/-- A part of a template. -/
inductive Part where
  /-- A fixed text. -/
  | text (s : String)
  /-- Fixed lines. -/
  | lines (ls : List String)
  /-- A value as it stands. -/
  | slot (name : String)
  /-- A value as a text of the app. -/
  | escaped (name : String)
  deriving Repr

/-- A file with slots. -/
abbrev Template := List Part

/-- A character of a text of the app, with its escapes. -/
def resourceChar (c : Char) : List Char :=
  if c = '&' then "&amp;".toList
  else if c = '<' then "&lt;".toList
  else if c = '>' then "&gt;".toList
  else if c = '\\' then ['\\', '\\']
  else if c = '\'' then ['\\', '\'']
  else if c = '"' then ['\\', '"']
  else [c]

/-- A text of the app: markup and quotes are escaped, and so is a first character that would make
it a reference. -/
def resourceText (s : String) : String :=
  let body := s.toList.flatMap resourceChar
  String.ofList (if body.head? = some '@' || body.head? = some '?' then '\\' :: body else body)

/-- The text of a part; the name of a slot without a value is the error. -/
def Part.render (values : List (String × String)) : Part → Except String String
  | .text s => .ok s
  | .lines ls => .ok (String.join (ls.map fun l => l ++ "\n"))
  | .slot name => (values.lookup name).elim (.error name) .ok
  | .escaped name => (values.lookup name).elim (.error name) fun v => .ok (resourceText v)

/-- A template filled in. -/
def render (values : List (String × String)) : Template → Except String String
  | [] => .ok ""
  | part :: rest =>
    match part.render values, render values rest with
    | .ok s, .ok t => .ok (s ++ t)
    | .error e, _ => .error e
    | _, .error e => .error e

/-- The description of the app for the system. -/
def manifest : Template := [
  .lines [
    "<?xml version=\"1.0\" encoding=\"utf-8\"?>",
    "<manifest xmlns:android=\"http://schemas.android.com/apk/res/android\">",
    "",
    "    <application",
    "        android:allowBackup=\"true\"",
    "        android:icon=\"@mipmap/ic_launcher\"",
    "        android:label=\"@string/app_name\"",
    "        android:roundIcon=\"@mipmap/ic_launcher_round\"",
    "        android:supportsRtl=\"true\"",
    "        android:theme=\"@style/Theme.AppCompat.Light.DarkActionBar\">",
    "        <activity"
  ],
  .text "            android:name=\".",
  .slot "activity",
  .text "\"\n",
  .lines [
    "            android:exported=\"true\">",
    "            <intent-filter>",
    "                <action android:name=\"android.intent.action.MAIN\" />",
    "                <category android:name=\"android.intent.category.LAUNCHER\" />",
    "            </intent-filter>",
    "        </activity>",
    "    </application>",
    "",
    "</manifest>"
  ]
]

/-- The build file of the whole project. -/
def rootBuild : Template := [
  .lines [
    "// Top-level build file where you can add configuration options common to all sub-projects/modules.",
    "plugins \x7b"
  ],
  .text "    id 'com.android.application' version '",
  .slot "agp_version",
  .text "' apply false\n",
  .text "    id 'org.jetbrains.kotlin.android' version '",
  .slot "kotlin_version",
  .text "' apply false\n",
  .lines [
    "\x7d",
    "",
    "tasks.register('clean', Delete) \x7b",
    "    delete rootProject.layout.buildDirectory",
    "\x7d"
  ]
]

/-- The settings of the build: repositories and modules. -/
def buildSettings : Template := [
  .lines [
    "pluginManagement \x7b",
    "    repositories \x7b",
    "        google()",
    "        mavenCentral()",
    "        gradlePluginPortal()",
    "    \x7d",
    "\x7d",
    "dependencyResolutionManagement \x7b",
    "    repositoriesMode.set(RepositoriesMode.FAIL_ON_PROJECT_REPOS)",
    "    repositories \x7b",
    "        google()",
    "        mavenCentral()",
    "    \x7d",
    "\x7d",
    ""
  ],
  .text "rootProject.name = \"",
  .slot "project_name",
  .text "\"\n",
  .lines [
    "include ':app'"
  ]
]

/-- The build file of the app. -/
def appBuild : Template := [
  .lines [
    "plugins \x7b",
    "    id 'com.android.application'",
    "    id 'org.jetbrains.kotlin.android'",
    "\x7d",
    "",
    "android \x7b"
  ],
  .text "    namespace '",
  .slot "package",
  .text "'\n",
  .text "    compileSdk ",
  .slot "compile_sdk",
  .text "\n",
  .lines [
    "",
    "    defaultConfig \x7b"
  ],
  .text "        applicationId '",
  .slot "package",
  .text "'\n",
  .text "        minSdk ",
  .slot "min_sdk",
  .text "\n",
  .text "        targetSdk ",
  .slot "compile_sdk",
  .text "\n",
  .lines [
    "        versionCode 1",
    "        versionName \"1.0\"",
    "    \x7d",
    "",
    "    buildTypes \x7b",
    "        release \x7b",
    "            minifyEnabled false",
    "            proguardFiles getDefaultProguardFile('proguard-android-optimize.txt'), 'proguard-rules.pro'",
    "        \x7d",
    "    \x7d",
    "    compileOptions \x7b",
    "        sourceCompatibility JavaVersion.VERSION_1_8",
    "        targetCompatibility JavaVersion.VERSION_1_8",
    "    \x7d",
    "    kotlinOptions \x7b",
    "        jvmTarget = '1.8'",
    "    \x7d",
    "\x7d",
    "",
    "dependencies \x7b",
    "    implementation 'androidx.core:core-ktx:1.12.0'",
    "    implementation 'androidx.appcompat:appcompat:1.6.1'",
    "    implementation 'com.google.android.material:material:1.10.0'",
    "\x7d"
  ]
]

/-- The texts of the app. -/
def strings : Template := [
  .lines [
    "<?xml version=\"1.0\" encoding=\"utf-8\"?>",
    "<resources>"
  ],
  .text "    <string name=\"app_name\">",
  .escaped "app_name",
  .text "</string>\n",
  .lines [
    "</resources>"
  ]
]


/-- The templates by name. -/
def templates : List (String × Template) := [
  ("manifest", manifest), ("root_gradle", rootBuild), ("settings_gradle", buildSettings),
  ("app_gradle", appBuild), ("strings", strings)
]

/-- Values that slots have unless others are given. -/
def defaultValues : List (String × String) := [
  ("activity", "MainActivity"), ("agp_version", "8.2.0"), ("kotlin_version", "1.9.0"),
  ("compile_sdk", "34"), ("min_sdk", "24")
]

/-- Why a template gives no file. -/
inductive TemplateError where
  | unknownTemplate (name : String)
  | missingValue (slot : String)
  deriving DecidableEq, Repr

/-- A template by name, filled with values over the defaults. -/
def renderNamed (name : String) (values : List (String × String)) :
    Except TemplateError String :=
  match templates.lookup name with
  | none => .error (.unknownTemplate name)
  | some t =>
    match render (values ++ defaultValues) t with
    | .ok s => .ok s
    | .error slot => .error (.missingValue slot)

/-- A template whose slots all have values; a slot without one would be empty. -/
def fill (values : List (String × String)) (t : Template) : String :=
  match render (values ++ defaultValues) t with
  | .ok s => s
  | .error _ => ""

end Project
end ScreenForge
