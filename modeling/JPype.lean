import JPype.Overload.Match
import JPype.Overload.Delivery
import JPype.Foundation.Agreement
import JPype.Foundation.Runs
import JPype.Overload.Dispatch
import JPype.Overload.CacheTransparency
import JPype.Overload.OrderIndependence
import JPype.Text.Encoding
import JPype.Text.Transcribe
import JPype.Array.Slice
import JPype.Array.View
import JPype.Array.Handover
import JPype.Array.Rectangular
import JPype.Array.BufferExport
import JPype.Foundation.Hoare
import JPype.Java.Reflection
import JPype.Java.InputStream
import JPype.Pickle.Codec
import JPype.Pickle.ByteQueue
import JPype.ClassFile.Visibility
import JPype.Overload.MethodResolution
import JPype.Overload.Population
import JPype.Overload.Hiding
import JPype.Array.Assembly
import JPype.Reference.ReferenceSet
import JPype.Reference.ReferenceQueue
import JPype.Proxy.Instances
import JPype.Array.ViewLifetime
import JPype.Array.BufferIntake
import JPype.Array.PrimitiveBuffer
import JPype.Customizer.ClassHints
import JPype.Customizer.Conversions
import JPype.Foundation.Operations
import JPype.Customizer.Interleaving
import JPype.Wrapper.Comparison
import JPype.Array.RangeAssignment
import JPype.Text.JavaString
import JPype.Html.Decode
import JPype.Html.Escaping
import JPype.Foundation.Traces
import JPype.Proxy.Declaration
import JPype.Proxy.Identity
import JPype.Proxy.FunctionalInterface
import JPype.Foundation.Forest
import JPype.Proxy.ClassLoader
import JPype.Collection.Map
import JPype.Collection.List
import JPype.Collection.SliceAssignment
import JPype.Wrapper.Layout
import JPype.Wrapper.Creation
import JPype.Wrapper.CharArithmetic
import JPype.Html.HtmlGrammar
import JPype.Html.Blocks
import JPype.Html.Tokenization
import JPype.Dbapi2.Cursor
import JPype.Dbapi2.Parameters
import JPype.Dbapi2.Execution
import JPype.Dbapi2.CurrentResultSet
import JPype.Dbapi2.RowCount
import JPype.Dbapi2.Callproc
import JPype.Html.AttrGrammar
import JPype.Html.StartTag
import JPype.Html.Attributes
import JPype.Wrapper.Linearization
import JPype.Foundation.Cycles
import JPype.Overload.Specificity
import JPype.Overload.SortTermination
import JPype.Overload.Succession
import JPype.Overload.Undisputed
import JPype.Overload.Ambiguity
import JPype.Array.RangeFailure
import JPype.Array.Converters
import JPype.Exception.CauseChain
import JPype.Overload.Interruption
import JPype.Overload.Completion
import JPype.Foundation.Joining
import JPype.Text.PercentEncoding
import JPype.Startup.ClassPath
import JPype.Startup.Specified
import JPype.Startup.Deliverable
import JPype.Startup.Probe
import JPype.Startup.JvmFinder
import JPype.Html.ClosingTags
import JPype.Html.VoidElements
import JPype.Javadoc.FormatWidth
import JPype.Java.NestedLookup
import JPype.Import.Packages
import JPype.Import.Coherence
import JPype.Import.Agreement
import JPype.Text.JavaUri
import JPype.Package.Contents
import JPype.Package.Directories
import JPype.Package.Listing
import JPype.Package.Collecting
import JPype.Package.Completeness
import JPype.Manager.Destroyer
import JPype.Wrapper.LongDigits
import JPype.Import.Mangling
import JPype.Package.JarScan
import JPype.Javadoc.Parameters
import JPype.Array.MachineWidth
import JPype.Array.Creation
import JPype.Context.ForcedCollection
import JPype.Context.LaunchOptions
import JPype.Manager.Ownership
import JPype.Conversion.Preservation
import JPype.Dbapi2.Jdbc
import JPype.Dbapi2.Session
import JPype.Dbapi2.Resources
import JPype.Html.RoundTrip
