import WideRow.Adapter.Template

/-!
# The bundled skeleton

The skeleton of an adapter for Hibernate's composite user types, which is used when no other is
given.
-/

namespace WideRow

/-- The lines of the bundled skeleton. The last one is empty: the text ends with a line end. -/
def bundledLines : List String :=
  [ "package %PACKAGE%;",
    "",
    "import jakarta.persistence.Column;",
    "import org.hibernate.HibernateException;",
    "import org.hibernate.engine.spi.SessionFactoryImplementor;",
    "import org.hibernate.metamodel.spi.ValueAccess;",
    "import org.hibernate.usertype.CompositeUserType;",
    "",
    "import java.io.Serializable;",
    "import java.util.Objects;",
    "",
    "public class %NAME% implements CompositeUserType<%SUM_TYPE%> \x7b",
    "",
    "    @Override",
    "    public Object getPropertyValue(%SUM_TYPE% component, int index) throws HibernateException \x7b",
    "        %GET_PROPERTY_BODY%",
    "    \x7d",
    "",
    "    @Override",
    "    public %SUM_TYPE% instantiate(ValueAccess values, SessionFactoryImplementor sessionFactory) \x7b",
    "        %INSTANTIATE_BODY%",
    "    \x7d",
    "",
    "    @Override",
    "    public Class<?> embeddable() \x7b",
    "        return %EMBEDDABLE_TYPE%.class;",
    "    \x7d",
    "",
    "    @Override",
    "    public Class<%SUM_TYPE%> returnedClass() \x7b",
    "        return %SUM_TYPE%.class;",
    "    \x7d",
    "",
    "    @Override",
    "    public boolean equals(%SUM_TYPE% x, %SUM_TYPE% y) \x7b",
    "        return Objects.equals(x, y);",
    "    \x7d",
    "",
    "    @Override",
    "    public int hashCode(%SUM_TYPE% x) \x7b",
    "        return Objects.hashCode(x);",
    "    \x7d",
    "",
    "    @Override",
    "    public %SUM_TYPE% deepCopy(%SUM_TYPE% value) \x7b",
    "        return value;",
    "    \x7d",
    "",
    "    @Override",
    "    public boolean isMutable() \x7b",
    "        return false;",
    "    \x7d",
    "",
    "    @Override",
    "    public Serializable disassemble(%SUM_TYPE% value) \x7b",
    "        return (Serializable) value;",
    "    \x7d",
    "",
    "    @Override",
    "    @SuppressWarnings(\"unchecked\")",
    "    public %SUM_TYPE% assemble(Serializable cached, Object owner) \x7b",
    "        return (%SUM_TYPE%) cached;",
    "    \x7d",
    "",
    "    @Override",
    "    public %SUM_TYPE% replace(%SUM_TYPE% detached, %SUM_TYPE% managed, Object owner) \x7b",
    "        return detached;",
    "    \x7d",
    "",
    "    public static class %EMBEDDABLE_TYPE% \x7b",
    "        %EMBEDDABLE_TYPE_CONTENT%",
    "    \x7d",
    "\x7d",
    "" ]

/-- The text of the bundled skeleton. -/
def bundledTemplate : String := String.intercalate "\n" bundledLines

end WideRow
